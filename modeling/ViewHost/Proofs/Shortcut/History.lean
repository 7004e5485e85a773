import Mathlib.Data.Finset.Card
import Mathlib.Data.List.Induction
import ViewHost.Shortcut.Registry

/-!
# The history of shortcuts

A registry is what its history has made of it: a chord is bound if the last edit that
affects it has bound it. A press makes two chords, and if both are bound, the one whose
last binding is the later one counts. The registry itself keeps no history. It numbers
its bindings, and the numbers are in the order of the edits.

Chords are written in various ways, and a press is asked in as many ways whether it
matches. Both come to the same.
-/

namespace ViewHost

variable {κ : Type}

/-- A way to write a chord. -/
inductive ChordSpelling where
  | input (text : String) (m : Modifiers)
  | code (code : KeyCode) (m : Modifiers)
  deriving DecidableEq

namespace ChordSpelling

def chord : ChordSpelling → Chord
  | input text m => .ofInput text m
  | code c m => .ofCode c m

/-- What a press is asked to find out whether it matches. -/
def fits (p : KeyPress) : ChordSpelling → Bool
  | input text m => p.matchesInputWith text m
  | code c m => p.matchesCodeWith c m

/-- A press matches what it makes the chord of. -/
theorem fits_iff (s : ChordSpelling) (p : KeyPress) :
    s.fits p = true ↔ s.chord = p.inputChord ∨ s.chord = p.codeChord := by
  cases s with
  | input text m =>
    simp only [fits, KeyPress.matchesInputWith, KeyPress.matchesInput, Bool.and_eq_true,
      beq_iff_eq, chord, Chord.ofInput, KeyPress.inputChord, KeyPress.codeChord, Chord.mk.injEq,
      ChordKey.input.injEq, reduceCtorEq, false_and, or_false]
    exact and_congr eq_comm eq_comm
  | code c m =>
    simp only [fits, KeyPress.matchesCodeWith, KeyPress.matchesCode, Bool.and_eq_true,
      beq_iff_eq, chord, Chord.ofCode, KeyPress.inputChord, KeyPress.codeChord, Chord.mk.injEq,
      ChordKey.code.injEq, reduceCtorEq, false_and, false_or]
    exact and_congr eq_comm eq_comm

end ChordSpelling

/-- A change of the shortcuts. -/
inductive ShortcutEdit (κ : Type) where
  | bind (s : ChordSpelling) (action : κ)
  | unbind (s : ChordSpelling)
  | clear

namespace ShortcutEdit

/-- Whether the edit is about a chord. -/
def affects (c : Chord) : ShortcutEdit κ → Bool
  | bind s _ | unbind s => s.chord == c
  | clear => true

def isBind : ShortcutEdit κ → Bool
  | bind .. => true
  | _ => false

/-- What the edit leaves of a chord that it affects. -/
def leaves? (number : Nat) : ShortcutEdit κ → Option (Binding κ)
  | bind _ action => some ⟨number, action⟩
  | _ => none

end ShortcutEdit

namespace ShortcutRegistry

def edit (r : ShortcutRegistry κ) : ShortcutEdit κ → ShortcutRegistry κ
  | .bind s action => (r.bind s.chord action).2
  | .unbind s => (r.unbind s.chord).2
  | .clear => r.clear

/-- The registry that a history leads to. -/
def ofHistory (history : List (ShortcutEdit κ)) : ShortcutRegistry κ := history.foldl edit .empty

@[simp] theorem ofHistory_snoc (history : List (ShortcutEdit κ)) (e : ShortcutEdit κ) :
    ofHistory (history ++ [e]) = (ofHistory history).edit e := by
  simp [ofHistory]

theorem lookup_filter (l : List (Chord × Binding κ)) (c c' : Chord) :
    (l.filter (·.1 != c)).lookup c' = if c = c' then none else l.lookup c' := by
  induction l with
  | nil => simp
  | cons x l ih =>
    by_cases hx : x.1 = c
    · rw [List.filter_cons_of_neg (by simp [hx]), ih]
      by_cases hc : c = c'
      · rw [if_pos hc, if_pos hc]
      · have hne : (c' == x.1) = false := by simpa [hx] using Ne.symm hc
        rw [if_neg hc, if_neg hc, List.lookup_cons, hne]
    · rw [List.filter_cons_of_pos (by simpa using hx), List.lookup_cons, List.lookup_cons, ih]
      by_cases hc : c = c'
      · have hne : (c' == x.1) = false := by
          rw [← hc]
          simpa using Ne.symm hx
        rw [if_pos hc, if_pos hc, hne]
      · rw [if_neg hc, if_neg hc]

theorem isBound_iff (r : ShortcutRegistry κ) (c : Chord) :
    r.isBound c = true ↔ ∃ b, r.bindings.lookup c = some b := by
  rw [← Option.isSome_iff_exists, List.lookup_isSome_iff, isBound, List.any_eq_true]
  simp only [beq_iff_eq, eq_comm (a := c)]

/-- An edit leaves the chords alone that it does not affect. -/
theorem lookup_edit (r : ShortcutRegistry κ) (e : ShortcutEdit κ) (c : Chord) :
    (r.edit e).bindings.lookup c =
      if e.affects c then e.leaves? (r.made + 1) else r.bindings.lookup c := by
  cases e with
  | bind s action =>
    by_cases hc : s.chord = c
    · simp [edit, bind, unbind, ShortcutEdit.affects, ShortcutEdit.leaves?, hc]
    · have hne : (c == s.chord) = false := by simpa using Ne.symm hc
      simp [edit, bind, unbind, ShortcutEdit.affects, List.lookup_cons, hc, hne, lookup_filter]
  | unbind s =>
    simp [edit, unbind, ShortcutEdit.affects, ShortcutEdit.leaves?, lookup_filter]
  | clear => rfl

theorem made_edit (r : ShortcutRegistry κ) (e : ShortcutEdit κ) :
    (r.edit e).made = r.made + if e.isBind then 1 else 0 := by
  cases e <;> rfl

/-- No chord is bound twice. -/
theorem nodup_edit {r : ShortcutRegistry κ} (h : (r.bindings.map (·.1)).Nodup)
    (e : ShortcutEdit κ) : ((r.edit e).bindings.map (·.1)).Nodup := by
  have hfilter : ∀ c, ((r.bindings.filter (·.1 != c)).map (·.1)).Nodup := fun c =>
    h.sublist (List.filter_sublist.map _)
  cases e with
  | bind s action =>
    refine List.nodup_cons.2 ⟨?_, hfilter s.chord⟩
    simp
  | unbind s => exact hfilter s.chord
  | clear => exact .nil

end ShortcutRegistry

/-! ## What is in force -/

/-- The edit with the number `i` has bound a chord, and no edit has affected it since. -/
structure InForce (history : List (ShortcutEdit κ)) (i : Nat) (s : ChordSpelling) (action : κ) :
    Prop where
  bound : history[i]? = some (.bind s action)
  since : ∀ j e, i < j → history[j]? = some e → e.affects s.chord = false

/-- What a press comes to: of all that is in force and matches it, the one bound last. -/
structure Latest (history : List (ShortcutEdit κ)) (p : KeyPress) (i : Nat) (s : ChordSpelling)
    (action : κ) : Prop where
  inForce : InForce history i s action
  fits : s.fits p = true
  last : ∀ j s' action', InForce history j s' action' → s'.fits p = true → j ≤ i

/-- The last edit that affects the chord has bound it. -/
def Registered (history : List (ShortcutEdit κ)) (c : Chord) : Prop :=
  ∃ i s action, InForce history i s action ∧ s.chord = c

variable {history : List (ShortcutEdit κ)} {e : ShortcutEdit κ} {i j : Nat} {s s' : ChordSpelling}
variable {action action' : κ} {p : KeyPress}

theorem InForce.lt_length (h : InForce history i s action) : i < history.length := by
  obtain ⟨hlt, -⟩ := List.getElem?_eq_some_iff.1 h.bound
  exact hlt

/-- What is in force after one more edit. -/
theorem inForce_snoc : InForce (history ++ [e]) i s action ↔
    (i = history.length ∧ e = .bind s action) ∨
      (InForce history i s action ∧ e.affects s.chord = false) := by
  constructor
  · rintro ⟨hbound, hsince⟩
    rcases Nat.lt_trichotomy i history.length with hlt | rfl | hgt
    · rw [List.getElem?_append_left hlt] at hbound
      refine .inr ⟨⟨hbound, ?_⟩, hsince history.length e hlt (by simp)⟩
      intro j e' hij he'
      obtain ⟨hj, -⟩ := List.getElem?_eq_some_iff.1 he'
      exact hsince j e' hij (by rw [List.getElem?_append_left hj, he'])
    · exact .inl ⟨rfl, by simpa using hbound⟩
    · rw [List.getElem?_eq_none (by simp; omega)] at hbound
      cases hbound
  · rintro (⟨rfl, rfl⟩ | ⟨h, he⟩)
    · refine ⟨by simp, ?_⟩
      intro j e' hij he'
      rw [List.getElem?_eq_none (by simp; omega)] at he'
      cases he'
    · refine ⟨by rw [List.getElem?_append_left h.lt_length, h.bound], ?_⟩
      intro j e' hij he'
      rcases Nat.lt_trichotomy j history.length with hlt | rfl | hgt
      · rw [List.getElem?_append_left hlt] at he'
        exact h.since j e' hij he'
      · simp only [List.getElem?_concat_length, Option.some.injEq] at he'
        exact he' ▸ he
      · rw [List.getElem?_eq_none (by simp; omega)] at he'
        cases he'

/-! ## Numbers -/

/-- The number of bindings made by the edits up to that with the number `i`. -/
def madeBy (history : List (ShortcutEdit κ)) (i : Nat) : Nat :=
  (history.take (i + 1)).countP (·.isBind)

theorem madeBy_snoc_of_lt (h : i < history.length) :
    madeBy (history ++ [e]) i = madeBy history i := by
  rw [madeBy, List.take_append_of_le_length h, madeBy]

theorem madeBy_length (history : List (ShortcutEdit κ)) (e : ShortcutEdit κ) :
    madeBy (history ++ [e]) history.length =
      history.countP (·.isBind) + if e.isBind then 1 else 0 := by
  rw [madeBy, List.take_of_length_le (by simp), List.countP_append, List.countP_singleton]

/-- Numbers are in the order of the edits. -/
theorem madeBy_lt (h : InForce history j s action) (hij : i < j) :
    madeBy history i < madeBy history j := by
  obtain ⟨hj, hbound⟩ := List.getElem?_eq_some_iff.1 h.bound
  have hle : madeBy history i ≤ (history.take j).countP (·.isBind) :=
    (List.take_sublist_take_left hij).countP_le
  have hlast : madeBy history j = (history.take j).countP (·.isBind) + 1 := by
    rw [madeBy, ← List.take_concat_get' history j hj, List.countP_append, hbound]
    rfl
  omega

namespace ShortcutRegistry

/-- What a registry keeps of its history. -/
structure Records (history : List (ShortcutEdit κ)) (r : ShortcutRegistry κ) : Prop where
  made : r.made = history.countP (·.isBind)
  nodup : (r.bindings.map (·.1)).Nodup
  lookup : ∀ c b, r.bindings.lookup c = some b ↔
    ∃ i s, InForce history i s b.action ∧ s.chord = c ∧ b.number = madeBy history i

theorem Records.edit {r : ShortcutRegistry κ} (h : r.Records history) (e : ShortcutEdit κ) :
    (r.edit e).Records (history ++ [e]) := by
  refine ⟨?_, nodup_edit h.nodup e, ?_⟩
  · rw [made_edit, h.made, List.countP_append, List.countP_singleton]
  · intro c b
    rw [lookup_edit]
    cases he : e.affects c with
    | true =>
      -- what was in force for the chord is not any more
      rw [if_pos rfl]
      constructor
      · intro hb
        cases e with
        | bind s action =>
          cases hb
          refine ⟨history.length, s, inForce_snoc.2 (.inl ⟨rfl, rfl⟩), eq_of_beq he, ?_⟩
          rw [madeBy_length, h.made]
          rfl
        | unbind s => cases hb
        | clear => cases hb
      · rintro ⟨i, s, hs, rfl, hnumber⟩
        rcases inForce_snoc.1 hs with ⟨rfl, rfl⟩ | ⟨-, hnot⟩
        · rw [madeBy_length, ← h.made] at hnumber
          exact congrArg (fun n => some (Binding.mk n b.action)) hnumber.symm
        · rw [he] at hnot
          cases hnot
    | false =>
      rw [if_neg Bool.false_ne_true, h.lookup]
      constructor
      · rintro ⟨i, s, hs, rfl, hnumber⟩
        refine ⟨i, s, inForce_snoc.2 (.inr ⟨hs, he⟩), rfl, ?_⟩
        rw [madeBy_snoc_of_lt hs.lt_length, hnumber]
      · rintro ⟨i, s, hs, rfl, hnumber⟩
        rcases inForce_snoc.1 hs with ⟨-, rfl⟩ | ⟨hs, -⟩
        · simp [ShortcutEdit.affects] at he
        · exact ⟨i, s, hs, rfl, by rw [hnumber, madeBy_snoc_of_lt hs.lt_length]⟩

theorem records_ofHistory (history : List (ShortcutEdit κ)) :
    (ofHistory history).Records history := by
  induction history using List.reverseRecOn with
  | nil =>
    refine ⟨rfl, .nil, ?_⟩
    intro c b
    constructor
    · intro hb
      cases hb
    · rintro ⟨i, s, hs, -, -⟩
      cases hs.bound
  | append_singleton history e ih =>
    rw [ofHistory_snoc]
    exact ih.edit e

theorem Records.isBound_iff {r : ShortcutRegistry κ} (h : r.Records history) (c : Chord) :
    r.isBound c = true ↔ Registered history c := by
  rw [ShortcutRegistry.isBound_iff]
  constructor
  · rintro ⟨b, hb⟩
    obtain ⟨i, s, hs, hc, -⟩ := (h.lookup c b).1 hb
    exact ⟨i, s, b.action, hs, hc⟩
  · rintro ⟨i, s, action, hs, hc⟩
    exact ⟨⟨madeBy history i, action⟩, (h.lookup c _).2 ⟨i, s, hs, hc, rfl⟩⟩

/-- Each registered chord is counted once. -/
theorem Records.exists_card {r : ShortcutRegistry κ} (h : r.Records history) :
    ∃ chords : Finset Chord, (∀ c, c ∈ chords ↔ Registered history c) ∧
      r.commandCount = chords.card := by
  refine ⟨(r.bindings.map (·.1)).toFinset, ?_, ?_⟩
  · intro c
    rw [← h.isBound_iff c, List.mem_toFinset, isBound, List.any_eq_true]
    simp
  · rw [List.toFinset_card_of_nodup h.nodup, List.length_map]
    rfl

end ShortcutRegistry

/-! ## Presses -/

theorem Binding.number_le_later? {a b : Option (Binding κ)} {c d : Binding κ}
    (hc : later? a b = some c) (hd : a = some d ∨ b = some d) : d.number ≤ c.number := by
  rw [later?.eq_def] at hc
  split at hc
  · split at hc <;> cases hc <;> rcases hd with hd | hd <;> cases hd <;> omega
  · cases hc
    rcases hd with hd | hd <;> cases hd
    exact Nat.le_refl _
  · rcases hd with hd | hd
    · cases hd
    · cases hc.symm.trans hd
      exact Nat.le_refl _

theorem Binding.later?_ne_none {a b : Option (Binding κ)} {d : Binding κ}
    (hd : a = some d ∨ b = some d) : later? a b ≠ none := by
  rw [later?.eq_def]
  split
  · split <;> exact Option.some_ne_none _
  · exact Option.some_ne_none _
  · rcases hd with hd | rfl
    · cases hd
    · exact Option.some_ne_none _

namespace ShortcutRegistry.Records

variable {r : ShortcutRegistry κ}

/-- What is in force and matches a press is among the bindings of its chords. -/
theorem lookup_of_fits (h : r.Records history) (hs : InForce history i s action)
    (hfits : s.fits p = true) :
    r.bindings.lookup p.inputChord = some ⟨madeBy history i, action⟩ ∨
      r.bindings.lookup p.codeChord = some ⟨madeBy history i, action⟩ := by
  have hlookup := (h.lookup s.chord ⟨madeBy history i, action⟩).2 ⟨i, s, hs, rfl, rfl⟩
  rcases (s.fits_iff p).1 hfits with hchord | hchord
  · exact .inl (hchord ▸ hlookup)
  · exact .inr (hchord ▸ hlookup)

theorem latest_of_bindingFor? (h : r.Records history) {b : Binding κ}
    (hb : r.bindingFor? p = some b) : ∃ i s, Latest history p i s b.action := by
  have hchord : ∃ i s, InForce history i s b.action ∧ s.fits p = true ∧
      b.number = madeBy history i := by
    rcases Binding.later?_eq_some hb with hb | hb
    · obtain ⟨i, s, hs, hc, hnumber⟩ := (h.lookup _ b).1 hb
      exact ⟨i, s, hs, (s.fits_iff p).2 (.inl hc), hnumber⟩
    · obtain ⟨i, s, hs, hc, hnumber⟩ := (h.lookup _ b).1 hb
      exact ⟨i, s, hs, (s.fits_iff p).2 (.inr hc), hnumber⟩
  obtain ⟨i, s, hs, hfits, hnumber⟩ := hchord
  refine ⟨i, s, hs, hfits, ?_⟩
  intro j s' action' hs' hfits'
  have hle := Binding.number_le_later? hb (h.lookup_of_fits hs' hfits')
  rw [hnumber] at hle
  by_contra hlt
  exact absurd (madeBy_lt hs' (Nat.lt_of_not_le hlt)) (Nat.not_lt_of_le hle)

/-- A press has an action if it goes down, is not a repetition, and matches something
that is in force. -/
theorem isSome_actionFor? (h : r.Records history) : (r.actionFor? p).isSome = true ↔
    p.isDown = true ∧ p.isRepeat = false ∧
      ∃ i s action, InForce history i s action ∧ s.fits p = true := by
  rw [actionFor?]
  by_cases hdown : p.isDown && !p.isRepeat
  · rw [if_pos hdown, Option.isSome_map]
    rw [Bool.and_eq_true, Bool.not_eq_true'] at hdown
    constructor
    · intro hsome
      obtain ⟨b, hb⟩ := Option.isSome_iff_exists.1 hsome
      obtain ⟨i, s, hs⟩ := h.latest_of_bindingFor? hb
      exact ⟨hdown.1, hdown.2, i, s, _, hs.inForce, hs.fits⟩
    · rintro ⟨-, -, i, s, action, hs, hfits⟩
      exact Option.isSome_iff_ne_none.2 (Binding.later?_ne_none (h.lookup_of_fits hs hfits))
  · rw [if_neg hdown]
    constructor
    · intro hsome
      cases hsome
    · rintro ⟨hisDown, hnot, -⟩
      rw [hisDown, hnot] at hdown
      exact (hdown rfl).elim

theorem latest_of_actionFor? (h : r.Records history) (hk : r.actionFor? p = some action) :
    ∃ i s, Latest history p i s action := by
  rw [actionFor?] at hk
  split at hk
  · obtain ⟨b, hb, rfl⟩ := Option.map_eq_some_iff.1 hk
    exact h.latest_of_bindingFor? hb
  · cases hk

end ShortcutRegistry.Records

end ViewHost
