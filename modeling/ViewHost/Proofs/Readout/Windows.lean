import Mathlib.Algebra.GroupWithZero.Nat
import Mathlib.Data.List.DropRight
import ViewHost.Readout.FrameMeter

/-!
# Windows of a frame meter

The ticks that a meter sees are divided into windows. The first tick starts a window and is
counted in none. Every later one is counted in the window that is open when it comes, and if it
comes a second or more after the start of that window, it ends the window and starts the next.
Nothing is assumed of the times: a tick from before the start of its window is counted in it like
any other, and after a long gap the next tick ends the window, however long it has become.
-/

namespace ViewHost

/-- Ticks that are counted together. -/
@[ext]
structure MeterWindow where
  start : Timestamp
  earlier : List FrameTick
  /-- The tick that ends the window. -/
  last : FrameTick

namespace MeterWindow

/-- The ticks that are counted, oldest first. -/
def ticks (w : MeterWindow) : List FrameTick := w.earlier ++ [w.last]

/-- The rate of the ticks in the window. -/
def fps (w : MeterWindow) : Nat :=
  FrameMeter.rate w.ticks.length (w.last.timestamp.monus w.start)

/-- A window that starts at one time is over at another: a second has passed. -/
def IsOver (start now : Timestamp) : Prop := start.nanos + Duration.second.nanos ≤ now.nanos

theorem monus_lt_second_iff {start now : Timestamp} :
    now.monus start < .second ↔ ¬ IsOver start now := by
  show now.nanos - start.nanos < 1000000000 ↔ ¬ start.nanos + 1000000000 ≤ now.nanos
  omega

end MeterWindow

open MeterWindow (IsOver)

/-- The windows that have ended, oldest first, and the one that is open. -/
structure MeterHistory where
  closed : List MeterWindow
  /-- The start of the open window. -/
  start : Timestamp
  /-- The ticks counted in the open window so far. -/
  pending : List FrameTick

namespace MeterHistory

/-- The rates in the windows that have ended. -/
def rates (h : MeterHistory) : List Nat := h.closed.map (·.fps)

/-- The ticks after the first are divided into windows. Each window but the first starts at the
tick that ends the one before, and it ends with the first of its ticks that comes when it is
over. -/
structure Divides (h : MeterHistory) (first : FrameTick) (rest : List FrameTick) : Prop where
  ticks : h.closed.flatMap (·.ticks) ++ h.pending = rest
  starts : h.closed.map (·.start) ++ [h.start] =
    first.timestamp :: h.closed.map (·.last.timestamp)
  earlier : ∀ w ∈ h.closed, ∀ t ∈ w.earlier, ¬ IsOver w.start t.timestamp
  last : ∀ w ∈ h.closed, IsOver w.start w.last.timestamp
  pending : ∀ t ∈ h.pending, ¬ IsOver h.start t.timestamp

/-- A meter shows the rates of the windows that have ended and counts in the open one. -/
structure ShownBy (h : MeterHistory) (m : FrameMeter) : Prop where
  windowStart : m.windowStart = some h.start
  framesInWindow : m.framesInWindow = h.pending.length
  fps : m.fps = h.rates.getLast?
  min : m.min = h.rates.min?
  max : m.max = h.rates.max?
  frameCount : m.frameCount = (h.closed.map (·.ticks.length)).sum + h.pending.length + 1

variable {h : MeterHistory} {m : FrameMeter} {first t : FrameTick} {rest : List FrameTick}

/-- One more tick in the open window. -/
def count (h : MeterHistory) (t : FrameTick) : MeterHistory :=
  { h with pending := h.pending ++ [t] }

/-- The open window ends, and the next one starts. -/
def close (h : MeterHistory) (t : FrameTick) : MeterHistory :=
  ⟨h.closed ++ [⟨h.start, h.pending, t⟩], t.timestamp, []⟩

theorem rates_close (h : MeterHistory) (t : FrameTick) : (h.close t).rates =
    h.rates ++ [FrameMeter.rate (h.pending.length + 1) (t.timestamp.monus h.start)] := by
  rw [rates, close, List.map_append, List.map_singleton, MeterWindow.fps, MeterWindow.ticks,
    List.length_append]
  rfl

/-- Once a window has ended, the latest rate lies between the extremes. -/
theorem exists_rates (h : MeterHistory) (hclosed : h.closed ≠ []) : ∃ least fps most,
    h.rates.min? = some least ∧ h.rates.getLast? = some fps ∧ h.rates.max? = some most ∧
    least ≤ fps ∧ fps ≤ most := by
  have hrates : h.rates ≠ [] := fun hnil => hclosed (List.map_eq_nil_iff.1 hnil)
  obtain ⟨least, hleast⟩ := Option.isSome_iff_exists.1 (List.isSome_min?_of_ne_nil hrates)
  obtain ⟨most, hmost⟩ := Option.isSome_iff_exists.1 (List.isSome_max?_of_ne_nil hrates)
  have hlast := List.getLast_mem hrates
  exact ⟨least, h.rates.getLast hrates, most, hleast, List.getLast?_eq_some_getLast hrates, hmost,
    (List.min?_eq_some_iff.1 hleast).2 _ hlast, (List.max?_eq_some_iff.1 hmost).2 _ hlast⟩

theorem Divides.length_eq (hd : h.Divides first rest) :
    (h.closed.map (·.ticks.length)).sum + h.pending.length = rest.length := by
  rw [← hd.ticks, List.length_append, List.length_flatMap]

theorem Divides.start (first : FrameTick) : Divides ⟨[], first.timestamp, []⟩ first [] where
  ticks := rfl
  starts := rfl
  earlier := by simp
  last := by simp
  pending := by simp

theorem Divides.count (hd : h.Divides first rest) (ht : ¬ IsOver h.start t.timestamp) :
    (h.count t).Divides first (rest ++ [t]) where
  ticks := by rw [MeterHistory.count, ← List.append_assoc, hd.ticks]
  starts := hd.starts
  earlier := hd.earlier
  last := hd.last
  pending := by
    intro u hu
    obtain hu | hu := List.mem_append.1 hu
    · exact hd.pending u hu
    · rwa [List.mem_singleton.1 hu]

theorem Divides.close (hd : h.Divides first rest) (ht : IsOver h.start t.timestamp) :
    (h.close t).Divides first (rest ++ [t]) where
  ticks := by
    rw [← hd.ticks]
    simp [MeterHistory.close, MeterWindow.ticks]
  starts := by
    have hstarts := hd.starts
    simp only [MeterHistory.close, List.map_append, List.map_singleton]
    rw [hstarts]
    rfl
  earlier := by
    intro w hw
    obtain hw | hw := List.mem_append.1 hw
    · exact hd.earlier w hw
    · rw [List.mem_singleton.1 hw]
      exact hd.pending
  last := by
    intro w hw
    obtain hw | hw := List.mem_append.1 hw
    · exact hd.last w hw
    · rwa [List.mem_singleton.1 hw]
  pending := by simp [MeterHistory.close]

theorem split_unique {P : FrameTick → Prop} {a c : List FrameTick} {x y : FrameTick}
    {b d : List FrameTick} (heq : a ++ x :: b = c ++ y :: d) (ha : ∀ z ∈ a, ¬ P z) (hx : P x)
    (hc : ∀ z ∈ c, ¬ P z) (hy : P y) : a = c ∧ x = y ∧ b = d := by
  induction a generalizing c with
  | nil =>
    cases c with
    | nil => exact ⟨rfl, List.cons.inj heq⟩
    | cons u c =>
      have hxu : x = u := (List.cons.inj heq).1
      exact absurd (hxu ▸ hx) (hc u List.mem_cons_self)
  | cons u a ih =>
    cases c with
    | nil =>
      have huy : u = y := (List.cons.inj heq).1
      exact absurd (huy ▸ hy) (ha u List.mem_cons_self)
    | cons v c =>
      obtain ⟨huv, htail⟩ := List.cons.inj heq
      obtain ⟨hac, hxy, hbd⟩ := ih htail (fun z hz => ha z (List.mem_cons_of_mem _ hz))
        (fun z hz => hc z (List.mem_cons_of_mem _ hz))
      exact ⟨by rw [huv, hac], hxy, hbd⟩

/-- The first window that has ended, and the windows after it. -/
theorem Divides.of_cons {w : MeterWindow} {ws : List MeterWindow} {start : Timestamp}
    {pending : List FrameTick} (hd : Divides ⟨w :: ws, start, pending⟩ first rest) :
    ∃ later, rest = w.earlier ++ w.last :: later ∧ w.start = first.timestamp ∧
      Divides ⟨ws, start, pending⟩ w.last later := by
  refine ⟨ws.flatMap (·.ticks) ++ pending, ?_, ?_, ?_⟩
  · rw [← hd.ticks]
    simp [MeterWindow.ticks]
  · exact (List.cons.inj hd.starts).1
  · exact {
      ticks := rfl
      starts := (List.cons.inj hd.starts).2
      earlier := fun u hu => hd.earlier u (List.mem_cons_of_mem _ hu)
      last := fun u hu => hd.last u (List.mem_cons_of_mem _ hu)
      pending := hd.pending }

/-- Without a window that has ended, all ticks are in the first. -/
theorem Divides.of_nil {start : Timestamp} {pending : List FrameTick}
    (hd : Divides ⟨[], start, pending⟩ first rest) : start = first.timestamp ∧ pending = rest :=
  ⟨(List.cons.inj hd.starts).1, hd.ticks⟩

theorem Divides.not_isOver {start : Timestamp} {pending : List FrameTick}
    (hd : Divides ⟨[], start, pending⟩ first rest) :
    ∀ t ∈ rest, ¬ IsOver first.timestamp t.timestamp := by
  obtain ⟨hstart, hpending⟩ := hd.of_nil
  rw [← hstart, ← hpending]
  exact hd.pending

/-- A division is determined by the ticks. -/
theorem Divides.unique {h' : MeterHistory} (hd : h.Divides first rest)
    (hd' : h'.Divides first rest) : h = h' := by
  obtain ⟨closed, start, pending⟩ := h
  obtain ⟨closed', start', pending'⟩ := h'
  -- both first windows end with the first tick that is over in them, and then start anew
  induction closed generalizing closed' first rest with
  | nil =>
    cases closed' with
    | nil =>
      obtain ⟨hstart, hpending⟩ := hd.of_nil
      obtain ⟨hstart', hpending'⟩ := hd'.of_nil
      rw [hstart, hpending, hstart', hpending']
    | cons w' ws' =>
      obtain ⟨later, hrest, hw', -⟩ := hd'.of_cons
      have hover := hd'.last w' List.mem_cons_self
      rw [hw'] at hover
      exact absurd hover (hd.not_isOver w'.last (by simp [hrest]))
  | cons w ws ih =>
    obtain ⟨later, hrest, hw, hlater⟩ := hd.of_cons
    have hover := hd.last w List.mem_cons_self
    have hearlier := hd.earlier w List.mem_cons_self
    rw [hw] at hover hearlier
    cases closed' with
    | nil => exact absurd hover (hd'.not_isOver w.last (by simp [hrest]))
    | cons w' ws' =>
      obtain ⟨later', hrest', hw', hlater'⟩ := hd'.of_cons
      have hover' := hd'.last w' List.mem_cons_self
      have hearlier' := hd'.earlier w' List.mem_cons_self
      rw [hw'] at hover' hearlier'
      obtain ⟨hbefore, hlast, hafter⟩ := split_unique
        (P := fun t => IsOver first.timestamp t.timestamp) (hrest.symm.trans hrest')
        hearlier hover hearlier' hover'
      rw [← hlast, ← hafter] at hlater'
      have hwindow : w = w' := MeterWindow.ext (hw.trans hw'.symm) hbefore hlast
      have htail := ih hlater ws' hlater'
      cases htail
      rw [hwindow]

end MeterHistory

theorem min?_concat (xs : List Nat) (x : Nat) :
    (xs ++ [x]).min? = some ((xs.min?.map fun n => n.min x).getD x) := by
  cases xs with
  | nil => rfl
  | cons y ys =>
    rw [List.cons_append, List.min?_cons', List.foldl_concat, List.min?_cons']
    rfl

theorem max?_concat (xs : List Nat) (x : Nat) :
    (xs ++ [x]).max? = some ((xs.max?.map fun n => n.max x).getD x) := by
  cases xs with
  | nil => rfl
  | cons y ys =>
    rw [List.cons_append, List.max?_cons', List.foldl_concat, List.max?_cons']
    rfl

namespace MeterHistory.ShownBy

variable {h : MeterHistory} {m : FrameMeter} {t : FrameTick}

/-- The first tick only starts a window. -/
theorem first (t : FrameTick) : (FrameMeter.new.observe t).1 = none ∧
    ShownBy ⟨[], t.timestamp, []⟩ (FrameMeter.new.observe t).2 :=
  ⟨rfl, rfl, rfl, rfl, rfl, rfl, rfl⟩

theorem count (hm : h.ShownBy m) (ht : ¬ IsOver h.start t.timestamp) :
    (m.observe t).1 = none ∧ (h.count t).ShownBy (m.observe t).2 := by
  have hlt := MeterWindow.monus_lt_second_iff.2 ht
  simp only [FrameMeter.observe, hm.windowStart, hlt, if_true]
  refine ⟨trivial, rfl, ?_, hm.fps, hm.min, hm.max, ?_⟩
  · simp [MeterHistory.count, hm.framesInWindow]
  · simp [MeterHistory.count, hm.frameCount, Nat.add_assoc]

theorem close (hm : h.ShownBy m) (ht : IsOver h.start t.timestamp) :
    (m.observe t).1 = (h.close t).rates.getLast? ∧ (h.close t).ShownBy (m.observe t).2 := by
  have hlt : ¬ t.timestamp.monus h.start < .second := fun hlt =>
    MeterWindow.monus_lt_second_iff.1 hlt ht
  simp only [FrameMeter.observe, hm.windowStart, hlt, if_false, hm.framesInWindow]
  refine ⟨?_, rfl, rfl, ?_, ?_, ?_, ?_⟩
  · rw [rates_close, List.getLast?_concat]
  · rw [rates_close, List.getLast?_concat]
  · rw [rates_close, min?_concat, ← hm.min]
  · rw [rates_close, max?_concat, ← hm.max]
  · simp [MeterHistory.close, MeterWindow.ticks, hm.frameCount, Nat.add_assoc]

end MeterHistory.ShownBy

/-! ## Sessions -/

variable {κ : Type}

inductive MeterCall where
  | tick (t : FrameTick)
  | reset

namespace MeterCall

def tick? : MeterCall → Option FrameTick
  | tick t => some t
  | reset => none

/-- The ticks since the last reset, or all of them if there has been none. -/
def sinceReset (calls : List MeterCall) : List FrameTick :=
  (calls.rtakeWhile (·.tick?.isSome)).filterMap tick?

/-- The calls up to the last reset. -/
def throughReset (calls : List MeterCall) : List MeterCall :=
  calls.rdropWhile (·.tick?.isSome)

theorem sinceReset_tick (calls : List MeterCall) (t : FrameTick) :
    sinceReset (calls ++ [tick t]) = sinceReset calls ++ [t] := by
  rw [sinceReset, List.rtakeWhile_concat_pos _ _ _ rfl, List.filterMap_append]
  rfl

theorem sinceReset_reset (calls : List MeterCall) : sinceReset (calls ++ [reset]) = [] := by
  rw [sinceReset, List.rtakeWhile_concat_neg _ _ _ Bool.false_ne_true]
  rfl

theorem throughReset_tick (calls : List MeterCall) (t : FrameTick) :
    throughReset (calls ++ [tick t]) = throughReset calls :=
  List.rdropWhile_concat_pos _ _ _ rfl

theorem throughReset_reset (calls : List MeterCall) :
    throughReset (calls ++ [reset]) = calls ++ [reset] :=
  List.rdropWhile_concat_neg _ _ _ Bool.false_ne_true

end MeterCall

/-- A gauge, and the calls that it has made so far. -/
structure MeterSession (κ : Type) where
  gauge : FrameGauge κ
  /-- Oldest first. -/
  told : List (κ × Nat)

namespace MeterSession

def start (onUpdate : Option κ) : MeterSession κ := ⟨.new onUpdate, []⟩

/-- The session after a call. -/
def after (s : MeterSession κ) : MeterCall → MeterSession κ
  | .tick t =>
    let (call, g) := s.gauge.observe t
    ⟨g, s.told ++ call.toList⟩
  | .reset => { s with gauge := s.gauge.reset }

def run (s : MeterSession κ) (calls : List MeterCall) : MeterSession κ := calls.foldl after s

/-- Whoever is there to be told is called once with each of some rates, in order. -/
def reports : Option κ → List Nat → List (κ × Nat)
  | none, _ => []
  | some k, rates => rates.map (k, ·)

theorem reports_append (onUpdate : Option κ) (rates more : List Nat) :
    reports onUpdate (rates ++ more) = reports onUpdate rates ++ reports onUpdate more := by
  cases onUpdate with
  | none => rfl
  | some k => exact List.map_append

theorem after_tick (m : FrameMeter) (onUpdate : Option κ) (told : List (κ × Nat)) (t : FrameTick) :
    after ⟨⟨m, onUpdate⟩, told⟩ (.tick t) =
      ⟨⟨(m.observe t).2, onUpdate⟩, told ++ reports onUpdate (m.observe t).1.toList⟩ := by
  cases onUpdate <;> cases hfps : (m.observe t).1 <;>
    simp [after, FrameGauge.observe, reports, hfps]

variable {onUpdate : Option κ} {before : List (κ × Nat)} {ticks : List FrameTick}
variable {s : MeterSession κ}

/-- What the ticks since the last reset have made of the session. -/
inductive Follows (onUpdate : Option κ) (before : List (κ × Nat)) :
    List FrameTick → MeterSession κ → Prop where
  | fresh : Follows onUpdate before [] ⟨.new onUpdate, before⟩
  | counting {first : FrameTick} {rest : List FrameTick} {h : MeterHistory} {m : FrameMeter}
      (hd : h.Divides first rest) (hm : h.ShownBy m) :
      Follows onUpdate before (first :: rest)
        ⟨⟨m, onUpdate⟩, before ++ reports onUpdate h.rates⟩

namespace Follows

theorem onUpdate_eq (hs : Follows onUpdate before ticks s) : s.gauge.onUpdate = onUpdate := by
  cases hs <;> rfl

theorem of_nil (hs : Follows onUpdate before [] s) :
    s.gauge.meter = .new ∧ s.told = before := by
  cases hs with
  | fresh => exact ⟨rfl, rfl⟩

theorem of_cons {first : FrameTick} {rest : List FrameTick}
    (hs : Follows onUpdate before (first :: rest) s) :
    ∃ h : MeterHistory, h.Divides first rest ∧ h.ShownBy s.gauge.meter ∧
      s.told = before ++ reports onUpdate h.rates := by
  cases hs with
  | counting hd hm => exact ⟨_, hd, hm, rfl⟩

theorem tick (hs : Follows onUpdate before ticks s) (t : FrameTick) :
    Follows onUpdate before (ticks ++ [t]) (s.after (.tick t)) := by
  cases hs with
  | fresh =>
    obtain ⟨hquiet, hm⟩ := MeterHistory.ShownBy.first t
    rw [FrameGauge.new, after_tick, hquiet]
    exact .counting (.start t) hm
  | @counting first rest h m hd hm =>
    rw [after_tick, List.append_assoc, ← reports_append]
    by_cases ht : IsOver h.start t.timestamp
    · obtain ⟨htold, hm'⟩ := hm.close ht
      have hrates : h.rates ++ (m.observe t).1.toList = (h.close t).rates := by
        rw [htold, MeterHistory.rates_close, List.getLast?_concat]
        rfl
      rw [hrates]
      exact .counting (hd.close ht) hm'
    · obtain ⟨hquiet, hm'⟩ := hm.count ht
      rw [hquiet, Option.toList_none, List.append_nil]
      exact .counting (h := h.count t) (hd.count ht) hm'

theorem reset (hs : Follows onUpdate before ticks s) :
    Follows onUpdate (s.after .reset).told [] (s.after .reset) := by
  cases hs <;> exact .fresh

theorem run (onUpdate : Option κ) (calls : List MeterCall) :
    Follows onUpdate ((start onUpdate).run (MeterCall.throughReset calls)).told
      (MeterCall.sinceReset calls) ((start onUpdate).run calls) := by
  have concat (calls : List MeterCall) (c : MeterCall) :
      (start onUpdate).run (calls ++ [c]) = ((start onUpdate).run calls).after c :=
    List.foldl_concat ..
  induction calls using List.reverseRecOn with
  | nil => exact .fresh
  | append_singleton calls c ih =>
    cases c with
    | tick t =>
      rw [MeterCall.throughReset_tick, MeterCall.sinceReset_tick, concat]
      exact ih.tick t
    | reset =>
      rw [MeterCall.throughReset_reset, MeterCall.sinceReset_reset, concat]
      exact ih.reset

end Follows

/-- Whom to tell outlives a reset, and everything else is about the ticks since the last one. As
soon as there is one, they are divided into windows in just one way: the meter counts in the open
one, it shows the rates in those that have ended, and each of these has been told once. -/
theorem windows_measured (onUpdate : Option κ) (calls : List MeterCall) :
    let s := (start onUpdate).run calls
    let m := s.gauge.meter
    let before := ((start onUpdate).run (MeterCall.throughReset calls)).told
    s.gauge.onUpdate = onUpdate ∧
    (MeterCall.sinceReset calls = [] → m = .new ∧ s.told = before) ∧
    ∀ first rest, MeterCall.sinceReset calls = first :: rest →
      ∃ h : MeterHistory, h.Divides first rest ∧
        (∀ h' : MeterHistory, h'.Divides first rest → h' = h) ∧
        m.windowStart = some h.start ∧
        m.framesInWindow = h.pending.length ∧
        (h.closed.map (·.ticks.length)).sum + m.framesInWindow + 1 = m.frameCount ∧
        m.frameCount = (first :: rest).length ∧
        (h.closed = [] → m.fps = none ∧ m.min = none ∧ m.max = none) ∧
        (h.closed ≠ [] → ∃ least fps most,
          m.min = some least ∧ m.fps = some fps ∧ m.max = some most ∧
          h.rates.min? = some least ∧ h.rates.getLast? = some fps ∧ h.rates.max? = some most ∧
          least ≤ fps ∧ fps ≤ most) ∧
        s.told = before ++ reports onUpdate h.rates := by
  intro s m before
  have hs : Follows onUpdate before (MeterCall.sinceReset calls) s := Follows.run onUpdate calls
  refine ⟨hs.onUpdate_eq, ?_, ?_⟩
  · intro hnone
    rw [hnone] at hs
    exact hs.of_nil
  · intro first rest hticks
    rw [hticks] at hs
    obtain ⟨h, hd, hm, htold⟩ := hs.of_cons
    have hcount : (h.closed.map (·.ticks.length)).sum + m.framesInWindow + 1 = m.frameCount := by
      rw [hm.framesInWindow, hm.frameCount]
    refine ⟨h, hd, fun h' hd' => hd'.unique hd, hm.windowStart, hm.framesInWindow, hcount,
      ?_, ?_, ?_, htold⟩
    · rw [hm.frameCount, hd.length_eq, List.length_cons]
    · intro hclosed
      rw [hm.fps, hm.min, hm.max, MeterHistory.rates, hclosed]
      exact ⟨rfl, rfl, rfl⟩
    · intro hclosed
      obtain ⟨least, fps, most, hleast, hfps, hmost, hle, hge⟩ := h.exists_rates hclosed
      exact ⟨least, fps, most, hm.min.trans hleast, hm.fps.trans hfps, hm.max.trans hmost,
        hleast, hfps, hmost, hle, hge⟩

/-- With 16.6 milliseconds from tick to tick, the 61st after the first ends its window, which has
had 60 frames a second. -/
example : ((start (some ())).run ((List.range 62).map fun i =>
    .tick ⟨.ofMicros (16600 * i.toUInt64), .ofMicros 16600⟩)).told = [((), 60)] := by
  decide +kernel

end MeterSession

end ViewHost
