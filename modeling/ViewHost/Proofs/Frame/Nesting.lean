import Mathlib
import ViewHost.Proofs.Frame.Timing

/-!
# Ticks within ticks

A callback may ask for a tick while another tick is being delivered. Whoever has not had its
turn in the earlier tick yet then sees the later one first, and after it the earlier one. So
the ticks that an observer sees are not always in order. But they are out of order for this
reason only, and no observer sees one tick twice: an observer is called with ticks that have
been accepted, and has one turn in each of them.
-/

namespace ViewHost

open Sighting

variable {κ ω : Type}

namespace Sighting

/-- The observer that is called with a tick, and the tick. -/
def turn? (x : Sighting κ) : Option (ObserverId × FrameTick) :=
  match x.moment with
  | .called _ (.tick id tick) => some (id, tick)
  | _ => none

/-- The observer that is called with a tick, and the time of the tick. -/
def seen? (x : Sighting κ) : Option (ObserverId × Timestamp) :=
  x.turn?.map fun (id, tick) => (id, tick.timestamp)

end Sighting

/-! ## Observers are called with ticks that have been accepted -/

/-- Observers are called with one of these ticks, or with one that has been accepted since. -/
def Heralded : List FrameTick → List (Sighting κ) → Prop
  | _, [] => True
  | ticks, x :: es =>
    (∀ id tick, x.turn? = some (id, tick) → tick ∈ ticks) ∧
      Heralded (x.accepted?.toList ++ ticks) es

namespace Heralded

variable {ticks ticks' : List FrameTick} {es es' before after : List (Sighting κ)} {x : Sighting κ}

theorem mono (h : Heralded ticks es) (hsub : ticks ⊆ ticks') : Heralded ticks' es := by
  induction es generalizing ticks ticks' with
  | nil => trivial
  | cons x es ih =>
    refine ⟨fun id tick hx => hsub (h.1 id tick hx), ih h.2 ?_⟩
    exact List.append_subset.2 ⟨List.subset_append_left _ _,
      List.subset_append_of_subset_right _ hsub⟩

theorem append (h : Heralded ticks es) (h' : Heralded ticks es') : Heralded ticks (es ++ es') := by
  induction es generalizing ticks with
  | nil => exact h'
  | cons x es ih => exact ⟨h.1, ih h.2 (h'.mono (List.subset_append_right _ _))⟩

theorem cons (hx : ∀ id tick, x.turn? = some (id, tick) → tick ∈ ticks) (h : Heralded ticks es) :
    Heralded ticks (x :: es) := ⟨hx, h.mono (List.subset_append_right _ _)⟩

/-- A tick that an observer is called with has been accepted before that. -/
theorem mem_of_turn (h : Heralded ticks (before ++ x :: after)) {id : ObserverId} {tick : FrameTick}
    (hx : x.turn? = some (id, tick)) : tick ∈ before.filterMap (·.accepted?) ++ ticks := by
  induction before generalizing ticks with
  | nil => exact h.1 id tick hx
  | cons y before ih =>
    have hmem := ih h.2
    cases hy : y.accepted? with
    | none =>
      rw [hy] at hmem
      rwa [List.filterMap_cons_none hy]
    | some t =>
      rw [hy] at hmem
      rw [List.filterMap_cons_some hy]
      simp only [Option.toList_some, List.mem_append, List.mem_cons, List.not_mem_nil] at hmem ⊢
      tauto

end Heralded

/-- What is served in a part of a run: a tick, and whose turn it is. -/
def Span.serves? : Span κ → Option (FrameTick × List ObserverId)
  | .call _ (.tick id tick) => some (tick, [id])
  | .turns tick ids => some (tick, ids)
  | _ => none

/-- Whether a part of a run comes between a request and its answer. -/
def Span.asks : Span κ → Bool
  | .request .. => true
  | _ => false

/-- The ticks that are known when a part of a run begins. -/
def Span.known (span : Span κ) (s : FrameScheduler κ) : List FrameTick :=
  match span with
  | .request r _ => (accepted? ⟨.asked r, s⟩).toList
  | span => (span.serves?.map (·.1)).toList

theorem Course.heralded {span : Span κ} {s s' : FrameScheduler κ} {es : List (Sighting κ)}
    (h : Course span s es s') : Heralded (span.known s) es := by
  induction h with
  | rest s => trivial
  | exchange _ _ ihrequest ihrest =>
    refine ⟨nofun, (ihrequest.append ?_).mono (List.subset_append_left _ _)⟩
    exact .cons nofun (ihrest.mono (List.nil_subset _))
  | @call s s' es k signal _ ih =>
    refine .cons (fun id tick hx => ?_) ((ih.mono (List.nil_subset _)).append ?_)
    · cases signal <;> cases hx
      exact List.mem_singleton_self _
    · exact .cons nofun trivial
  | ignored => trivial
  | done => trivial
  | dispatched _ _ ih => exact ih.mono (List.nil_subset _)
  | ticked hp _ ih =>
    rw [Span.known, accepted?_eq_some hp]
    exact ih
  | stirred _ _ _ _ _ ih => exact ih.mono (List.nil_subset _)
  | paused _ _ _ _ _ ihcall ihclock =>
    exact (ihcall.mono (List.nil_subset _)).append (ihclock.mono (List.nil_subset _))
  | steady => trivial
  | switched _ _ _ ih => exact ih
  | served => trivial
  | passed _ _ ih => exact ih
  | turn _ _ _ ihcall ihrest => exact ihcall.append ihrest
  | silent => trivial
  | @pressed s s₁ s' es es' k signal hsignal _ _ ihcall ihrest =>
    have hknown : (Span.call k signal).known s = [] := by
      cases signal <;> first | rfl | cases hsignal
    rw [hknown] at ihcall
    exact ihcall.append ihrest

/-! ## No observer sees a tick twice -/

/-- What has to be known of a part of a run for no observer to see a tick twice in it: no tick
is accepted twice or known before, and nobody has two turns. -/
structure Span.Proper (span : Span κ) (s : FrameScheduler κ) (es : List (Sighting κ)) : Prop where
  times : ((span.known s).map (·.timestamp) ++ es.filterMap time?).Nodup
  orders : ∀ x ∈ es, x.frames.order.Nodup
  order : span.asks = true → s.order.Nodup
  turns : ∀ tick ids, span.serves? = some (tick, ids) → ids.Nodup

/-- No observer sees a tick twice, and whoever sees the tick that is served has a turn in it. -/
structure Span.Once (span : Span κ) (es : List (Sighting κ)) : Prop where
  nodup : (es.filterMap seen?).Nodup
  turns : ∀ tick ids, span.serves? = some (tick, ids) →
    ∀ id, (id, tick.timestamp) ∈ es.filterMap seen? → id ∈ ids

theorem Heralded.time_of_seen {ticks : List FrameTick} {es : List (Sighting κ)}
    (h : Heralded ticks es) {id : ObserverId} {time : Timestamp}
    (hseen : (id, time) ∈ es.filterMap seen?) :
    time ∈ ticks.map (·.timestamp) ++ es.filterMap time? := by
  obtain ⟨x, hx, hxseen⟩ := List.mem_filterMap.1 hseen
  obtain ⟨before, after, rfl⟩ := List.append_of_mem hx
  obtain ⟨⟨id', tick⟩, hturn, hsame⟩ := Option.map_eq_some_iff.1 hxseen
  cases hsame
  have hmem := h.mem_of_turn hturn
  rw [List.mem_append, List.mem_filterMap] at hmem
  rw [List.mem_append, List.mem_map, List.mem_filterMap]
  rcases hmem with ⟨y, hy, haccepted⟩ | hknown
  · exact .inr ⟨y, by simp [hy], time?_eq_some haccepted⟩
  · exact .inl ⟨tick, hknown, rfl⟩

theorem filterMap_cons_eq_append {α β : Type} (f : α → Option β) (x : α) (l : List α) :
    (x :: l).filterMap f = (f x).toList ++ l.filterMap f := by
  cases hx : f x with
  | none => rw [List.filterMap_cons_none hx, Option.toList_none, List.nil_append]
  | some y => rw [List.filterMap_cons_some hx, Option.toList_some, List.singleton_append]

/-- Two parts of a run in which different ticks are seen. -/
theorem nodup_seen_append {ticks : List FrameTick} {es es' : List (Sighting κ)}
    (h : Heralded ticks es) (h' : Heralded [] es')
    (htimes : (ticks.map (·.timestamp) ++ (es ++ es').filterMap time?).Nodup)
    (hseen : (es.filterMap seen?).Nodup) (hseen' : (es'.filterMap seen?).Nodup) :
    ((es ++ es').filterMap seen?).Nodup := by
  rw [List.filterMap_append] at htimes ⊢
  rw [← List.append_assoc] at htimes
  refine hseen.append hseen' ?_
  rintro ⟨id, time⟩ hmem hmem'
  exact (List.disjoint_of_nodup_append htimes) (h.time_of_seen hmem) (h'.time_of_seen hmem')

theorem toList_time? (x : Sighting κ) : x.time?.toList = x.accepted?.toList.map (·.timestamp) := by
  rw [time?, Option.toList_map]

/-- If no time comes twice in two parts, none does in either of them. -/
theorem nodup_times_append {times : List Timestamp} {es es' : List (Sighting κ)}
    (h : (times ++ (es ++ es').filterMap time?).Nodup) :
    (times ++ es.filterMap time?).Nodup ∧ (times ++ es'.filterMap time?).Nodup := by
  rw [List.filterMap_append] at h
  constructor
  · exact h.sublist ((List.Sublist.refl times).append (List.sublist_append_left _ _))
  · exact h.sublist ((List.Sublist.refl times).append (List.sublist_append_right _ _))

/-- What a call adds to what can be seen in it. -/
theorem filterMap_call {β : Type} {f : Sighting κ → Option β} {x y : Sighting κ}
    {es : List (Sighting κ)} (hx : f x = none) (hy : f y = none) :
    (x :: es ++ [y]).filterMap f = es.filterMap f := by
  rw [List.cons_append, List.filterMap_cons_none hx, List.filterMap_append,
    List.filterMap_cons_none hy, List.filterMap_nil, List.append_nil]

theorem filterMap_call_some {β : Type} {f : Sighting κ → Option β} {x y : Sighting κ} {z : β}
    {es : List (Sighting κ)} (hx : f x = some z) (hy : f y = none) :
    (x :: es ++ [y]).filterMap f = z :: es.filterMap f := by
  rw [List.cons_append, List.filterMap_cons_some hx, List.filterMap_append,
    List.filterMap_cons_none hy, List.filterMap_nil, List.append_nil]

section NotServed

variable {span : Span κ} {s : FrameScheduler κ} {es : List (Sighting κ)}

theorem known_of_not_served (hserves : span.serves? = none) (hasks : span.asks = false) :
    span.known s = [] := by
  cases span with
  | request r a => cases hasks
  | _ => simp [Span.known, hserves]

theorem proper_of_not_served (hserves : span.serves? = none) (hasks : span.asks = false)
    (htimes : (es.filterMap time?).Nodup) (horders : ∀ x ∈ es, x.frames.order.Nodup) :
    span.Proper s es where
  times := by rwa [known_of_not_served hserves hasks]
  orders := horders
  order h := by
    rw [hasks] at h
    cases h
  turns tick ids h := by
    rw [hserves] at h
    cases h

theorem once_of_not_served (hserves : span.serves? = none) (hseen : (es.filterMap seen?).Nodup) :
    span.Once es where
  nodup := hseen
  turns tick ids h := by
    rw [hserves] at h
    cases h

end NotServed

/-- The induction is on the course. What is known when a part begins is not accepted again in
it, so the ticks that are seen in two parts, one after the other, are not the same, unless it
is the one that is being served in both. -/
theorem Course.once {span : Span κ} {s s' : FrameScheduler κ} {es : List (Sighting κ)}
    (h : Course span s es s') : span.Proper s es → span.Once es := by
  induction h with
  | rest s => exact fun _ => once_of_not_served rfl .nil
  | @exchange s s₁ s' es es' r a hrequest hrest ihrequest ihrest =>
    intro hproper
    have htimes : (((Span.request r a).known s).map (·.timestamp) ++
        (es ++ ⟨.answered r a, s₁⟩ :: es').filterMap time?).Nodup := by
      have h := hproper.times
      rw [List.cons_append, filterMap_cons_eq_append, toList_time?] at h
      exact h
    have horders := hproper.orders
    rw [List.cons_append, List.forall_mem_cons, List.forall_mem_append, List.forall_mem_cons]
      at horders
    obtain ⟨horder, hbefore, _, hafter⟩ := horders
    obtain ⟨hfirst, hsecond⟩ := nodup_times_append htimes
    have honce := ihrequest ⟨hfirst, hbefore, fun _ => horder, fun _ _ h => by cases h⟩
    have hlater := ihrest (proper_of_not_served rfl rfl (List.nodup_append.1 hsecond).2.1 hafter)
    have hheralded : Heralded [] (⟨.answered r a, s₁⟩ :: es') := .cons nofun hrest.heralded
    have hseen := nodup_seen_append hrequest.heralded hheralded htimes honce.nodup hlater.nodup
    exact once_of_not_served rfl hseen
  | @call s s' es k signal hserve ih =>
    intro hproper
    have htimes := hproper.times
    have horders := hproper.orders
    rw [List.cons_append, List.forall_mem_cons, List.forall_mem_append] at horders
    rw [filterMap_call rfl rfl] at htimes
    have hfree := ih (proper_of_not_served rfl rfl (List.nodup_append.1 htimes).2.1 horders.2.1)
    cases signal with
    | tick id tick =>
      have hnew : ∀ id', (id', tick.timestamp) ∉ es.filterMap seen? := by
        intro id' hid'
        exact (List.nodup_cons.1 htimes).1 (hserve.heralded.time_of_seen hid')
      have hseen : (Sighting.mk (.called k (.tick id tick)) s :: es ++
          [Sighting.mk (.returned k) s']).filterMap seen? =
          (id, tick.timestamp) :: es.filterMap seen? := filterMap_call_some rfl rfl
      constructor
      · rw [hseen]
        exact List.nodup_cons.2 ⟨hnew id, hfree.nodup⟩
      · rintro _ _ ⟨⟩ id' hid'
        rw [hseen, List.mem_cons] at hid'
        rcases hid' with hsame | hlater
        · cases hsame
          exact List.mem_singleton_self _
        · exact (hnew id' hlater).elim
    | _ =>
      apply once_of_not_served rfl
      rw [filterMap_call rfl rfl]
      exact hfree.nodup
  | ignored => exact fun _ => once_of_not_served rfl .nil
  | done => exact fun _ => once_of_not_served rfl .nil
  | dispatched _ _ ih =>
    intro hproper
    have hpresses := ih (proper_of_not_served rfl rfl hproper.times hproper.orders)
    exact once_of_not_served rfl hpresses.nodup
  | @ticked s s₁ s' es now tick hp _ ih =>
    intro hproper
    have hdue : s₁.due.Nodup := by
      have horder := hproper.order rfl
      rw [(FrameScheduler.pulse_eq_accepted hp).2]
      exact horder.filter _
    have htimes := hproper.times
    rw [Span.known, accepted?_eq_some hp] at htimes
    have hturns := ih ⟨htimes, hproper.orders, nofun, by rintro _ _ ⟨⟩; exact hdue⟩
    exact once_of_not_served rfl hturns.nodup
  | stirred _ _ _ _ _ ih =>
    intro hproper
    have hclock := ih (proper_of_not_served rfl rfl
      (List.nodup_append.1 hproper.times).2.1 hproper.orders)
    exact once_of_not_served rfl hclock.nodup
  | @paused s s₁ s' es es' id paused k a _ _ _ hcall hclock ihcall ihclock =>
    intro hproper
    have htimes : (([] : List FrameTick).map (·.timestamp) ++ (es ++ es').filterMap time?).Nodup :=
      hproper.times
    obtain ⟨horders, horders'⟩ := List.forall_mem_append.1 hproper.orders
    obtain ⟨hfirst, hsecond⟩ := nodup_times_append htimes
    have hpause := ihcall (proper_of_not_served rfl rfl hfirst horders)
    have hstir := ihclock (proper_of_not_served rfl rfl hsecond horders')
    have hseen := nodup_seen_append hcall.heralded hclock.heralded htimes hpause.nodup hstir.nodup
    exact once_of_not_served rfl hseen
  | steady => exact fun _ => once_of_not_served rfl .nil
  | switched _ _ _ ih =>
    intro hproper
    have hcall := ih (proper_of_not_served rfl rfl hproper.times hproper.orders)
    exact once_of_not_served rfl hcall.nodup
  | served => exact fun _ => ⟨.nil, by simp⟩
  | @passed s s' es tick id ids _ _ ih =>
    intro hproper
    have hids := hproper.turns tick (id :: ids) rfl
    have hrest := ih ⟨hproper.times, hproper.orders, nofun, by
      rintro _ _ ⟨⟩
      exact (List.nodup_cons.1 hids).2⟩
    refine ⟨hrest.nodup, ?_⟩
    rintro _ _ ⟨⟩ id' hid'
    exact List.mem_cons_of_mem _ (hrest.turns tick ids rfl id' hid')
  | @turn s s₁ s₂ s' es es' tick id ids k _ hcall hrest ihcall ihrest =>
    intro hproper
    obtain ⟨horders, horders'⟩ := List.forall_mem_append.1 hproper.orders
    obtain ⟨hfirst, hsecond⟩ := nodup_times_append hproper.times
    obtain ⟨hid, hids⟩ := List.nodup_cons.1 (hproper.turns tick (id :: ids) rfl)
    have hcalled := ihcall ⟨hfirst, horders, nofun, by rintro _ _ ⟨⟩; exact List.nodup_singleton _⟩
    have hserved := ihrest ⟨hsecond, horders', nofun, by rintro _ _ ⟨⟩; exact hids⟩
    constructor
    · rw [List.filterMap_append]
      refine hcalled.nodup.append hserved.nodup ?_
      rintro ⟨id', time⟩ hmem hmem'
      -- a tick that is seen in both parts is the one that is served
      have htime := hcall.heralded.time_of_seen hmem
      have htime' := hrest.heralded.time_of_seen hmem'
      by_cases hserves : time = tick.timestamp
      · subst hserves
        have hself := hcalled.turns tick [id] rfl id' hmem
        rw [List.mem_singleton] at hself
        subst hself
        exact hid (hserved.turns tick ids rfl id' hmem')
      · have hother : time ∉ [tick.timestamp] := by rwa [List.mem_singleton]
        have haccepted := (List.mem_append.1 htime).resolve_left hother
        have haccepted' := (List.mem_append.1 htime').resolve_left hother
        have htimes := (List.nodup_append.1 hproper.times).2.1
        rw [List.filterMap_append] at htimes
        exact List.disjoint_of_nodup_append htimes haccepted haccepted'
    · rintro _ _ ⟨⟩ id' hid'
      rw [List.filterMap_append, List.mem_append] at hid'
      rcases hid' with hmem | hmem
      · have hself := hcalled.turns tick [id] rfl id' hmem
        rw [List.mem_singleton] at hself
        exact hself ▸ List.mem_cons_self
      · exact List.mem_cons_of_mem _ (hserved.turns tick ids rfl id' hmem)
  | silent => exact fun _ => once_of_not_served rfl .nil
  | @pressed s s₁ s' es es' k signal hsignal hcall hrest ihcall ihrest =>
    intro hproper
    have hserves : (Span.call k signal).serves? = none := by
      cases signal <;> first | rfl | cases hsignal
    have hcalled := hcall.heralded
    rw [known_of_not_served hserves rfl] at hcalled
    obtain ⟨horders, horders'⟩ := List.forall_mem_append.1 hproper.orders
    have htimes : (([] : List FrameTick).map (·.timestamp) ++ (es ++ es').filterMap time?).Nodup :=
      hproper.times
    obtain ⟨hfirst, hsecond⟩ := nodup_times_append htimes
    have hpress := ihcall (proper_of_not_served hserves rfl hfirst horders)
    have hpresses := ihrest (proper_of_not_served rfl rfl hsecond horders')
    have hseen := nodup_seen_append hcalled hrest.heralded htimes hpress.nodup hpresses.nodup
    exact once_of_not_served rfl hseen

namespace World

variable {b : Behaviour κ ω} {interval : Duration} {w : World κ (ω × List (Sighting κ))}

/-- Ticks are accepted in the order of their times. -/
theorem Watched.times_increase (hw : w.Watched b interval) (hinterval : 0 < interval.nanos) :
    (w.history.filterMap time?).Pairwise fun t t' => t.nanos < t'.nanos := by
  have hspaced := times_spaced (goesBy_fresh interval) hw.links.1
  rw [Option.toList_none, List.nil_append, List.filterMap_cons_none rfl] at hspaced
  refine hspaced.imp fun {t t'} h => ?_
  rw [Spaced] at h
  omega

/-- No observer sees two ticks of one time. -/
theorem Watched.seen_nodup (hw : w.Watched b interval) (hinterval : 0 < interval.nanos) :
    (w.history.filterMap seen?).Nodup := by
  apply (hw.course.once _).nodup
  apply proper_of_not_served rfl rfl
  · refine (hw.times_increase hinterval).imp fun {t t'} hlt heq => ?_
    rw [heq] at hlt
    exact Nat.lt_irrefl _ hlt
  · exact fun x hx => (hw.numbered x hx).nodup

/-- If an observer sees two ticks, and the clock does not go without an interval, then the one
that it sees first is the earlier one, unless it was accepted while the other one was being
delivered. -/
theorem Watched.overtaken_or_in_order (hw : w.Watched b interval) (hinterval : 0 < interval.nanos)
    {before between after : List (Sighting κ)} {x y : Sighting κ} {id : ObserverId}
    {t t' : FrameTick} (h : w.history = before ++ x :: (between ++ y :: after))
    (hx : x.turn? = some (id, t)) (hy : y.turn? = some (id, t')) :
    t.timestamp.nanos < t'.timestamp.nanos ∨
    t'.timestamp.nanos < t.timestamp.nanos ∧ ∃ l m between' n r,
      before = l ++ m :: (between' ++ n :: r) ∧ m.accepted? = some t' ∧ n.accepted? = some t := by
  have hheralded := hw.course.heralded
  have htimes := hw.times_increase hinterval
  have hseen := hw.seen_nodup hinterval
  rw [h] at hheralded htimes hseen
  have hxseen : x.seen? = some (id, t.timestamp) := by rw [seen?, hx]; rfl
  have hyseen : y.seen? = some (id, t'.timestamp) := by rw [seen?, hy]; rfl
  have ht := hheralded.mem_of_turn hx
  rw [← List.cons_append, ← List.append_assoc] at hheralded
  have ht' := hheralded.mem_of_turn hy
  obtain ⟨n, hn, hnt⟩ := List.mem_filterMap.1 ((List.mem_append.1 ht).resolve_right nofun)
  obtain ⟨m, hm, hmt⟩ := List.mem_filterMap.1 ((List.mem_append.1 ht').resolve_right nofun)
  obtain ⟨l, r, rfl⟩ := List.append_of_mem hn
  rcases Nat.lt_trichotomy t.timestamp.nanos t'.timestamp.nanos with hlt | heq | hgt
  · exact .inl hlt
  · have hsame : t.timestamp = t'.timestamp := by
      cases htime : t.timestamp
      cases htime' : t'.timestamp
      simpa [htime, htime'] using heq
    have hagain : (id, t.timestamp) ∈ (between ++ y :: after).filterMap seen? :=
      List.mem_filterMap.2 ⟨y, by simp, by rw [hyseen, hsame]⟩
    rw [List.filterMap_append, List.filterMap_cons_some hxseen] at hseen
    exact ((List.nodup_cons.1 (List.nodup_append.1 hseen).2.1).1 hagain).elim
  · refine .inr ⟨hgt, ?_⟩
    -- what is accepted after `n` is later than `t`
    have hlater : ∀ z ∈ r ++ x :: between, z.accepted? = some t' → False := by
      intro z hz hzt
      rw [List.append_assoc, List.cons_append, List.filterMap_append,
        List.filterMap_cons_some (time?_eq_some hnt)] at htimes
      have hafter := (List.pairwise_cons.1 (List.pairwise_append.1 htimes).2.1).1 t'.timestamp
        (List.mem_filterMap.2 ⟨z, by simp at hz ⊢; tauto, time?_eq_some hzt⟩)
      omega
    rw [List.append_assoc, List.mem_append, List.cons_append, List.mem_cons] at hm
    rcases hm with hm | rfl | hm
    · obtain ⟨l', between', rfl⟩ := List.append_of_mem hm
      exact ⟨l', m, between', n, r, by simp, hmt, hnt⟩
    · rw [hnt] at hmt
      cases hmt
      omega
    · exact (hlater m hm hmt).elim

/-- When the first callback is called, it asks for a tick ten milliseconds later. -/
def hasty : Behaviour Nat Bool where
  enter _ _ asked := asked
  request k asked := if k = 1 ∧ !asked then some (.tick (.ofMillis 20), true) else none
  answer _ _ asked := asked
  leave _ asked := asked

/-- Two observers, and a tick. -/
def hastened : World Nat (Bool × List (Sighting Nat)) :=
  Run.final (Control.runAll hasty 4 [.register 1, .register 2, .tick (.ofMillis 10)])
    (.new (.ofMillis 10) (false, []))

theorem watched_hastened : hastened.Watched hasty (.ofMillis 10) :=
  (Watched.start false).runAll (by cbv)

/-- The second observer sees the later tick first, which was accepted while the earlier one was
being delivered. -/
theorem hastened_is_overtaken : ∃ before x between y after l m between' n r,
    hastened.history = before ++ x :: (between ++ y :: after) ∧
    x.turn? = some (⟨2⟩, ⟨.ofMillis 20, .ofMillis 10⟩) ∧
    y.turn? = some (⟨2⟩, ⟨.ofMillis 10, .ofMillis 10⟩) ∧
    before = l ++ m :: (between' ++ n :: r) ∧
    m.accepted? = some ⟨.ofMillis 10, .ofMillis 10⟩ ∧
    n.accepted? = some ⟨.ofMillis 20, .ofMillis 10⟩ := by
  have hlength : hastened.history.length = 14 := by cbv
  have hsplit : hastened.history = hastened.history.take 7 ++ hastened.history[7] ::
      ((hastened.history.drop 8).take 3 ++ hastened.history[11] :: hastened.history.drop 12) := by
    rw [List.getElem_cons_drop]
    have h : hastened.history.drop 11 = (hastened.history.drop 8).drop 3 := by rw [List.drop_drop]
    rw [h, List.take_append_drop, List.getElem_cons_drop, List.take_append_drop]
  have hfirst : (hastened.history[7]).turn? = some (⟨2⟩, ⟨.ofMillis 20, .ofMillis 10⟩) := by cbv
  have hsecond : (hastened.history[11]).turn? = some (⟨2⟩, ⟨.ofMillis 10, .ofMillis 10⟩) := by cbv
  rcases watched_hastened.overtaken_or_in_order (by decide) hsplit hfirst hsecond with
    hlt | ⟨_, l, m, between', n, r, hbefore, hm, hn⟩
  · exact absurd hlt (by decide)
  · exact ⟨_, _, _, _, _, l, m, between', n, r, hsplit, hfirst, hsecond, hbefore, hm, hn⟩

/-- So an observer does not always see ticks in order. -/
theorem not_in_order_if_nested : ¬ ∀ (b : Behaviour Nat Bool) (interval : Duration)
    (w : World Nat (Bool × List (Sighting Nat))), w.Watched b interval → 0 < interval.nanos →
    ∀ id, ((w.history.filterMap seen?).filter (·.1 = id)).Pairwise
      fun d d' => d.2.nanos < d'.2.nanos := by
  intro h
  have hseen : (hastened.history.filterMap seen?).filter (·.1 = ⟨2⟩) =
      [(⟨2⟩, .ofMillis 20), (⟨2⟩, .ofMillis 10)] := by cbv
  have hordered := h hasty (.ofMillis 10) hastened watched_hastened (by decide) ⟨2⟩
  rw [hseen] at hordered
  exact absurd ((List.pairwise_cons.1 hordered).1 _ (List.mem_singleton_self _)) (by decide)

end World

end ViewHost
