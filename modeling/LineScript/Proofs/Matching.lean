import LineScript.Pattern
import Mathlib.Logic.Relation
import Mathlib.Tactic.Choose

/-!
# Ways of matching

A pattern matches by trying ways in an order, which does not depend on what comes next.  For many
purposes the order does not matter: whatever match is found in the end is one of the ways, and a way
only moves forward in the text.

## Main definitions

* `Pattern.Way` — a way of matching a pattern from one cursor to another.
* `Pattern.Tries` — the ways from a cursor in the order in which they are tried.
* `Pattern.Only` — patterns that take only characters of a class.

## Main results

* `Pattern.exists_tries` — a run tries the ways of a pattern one after the other.
* `Pattern.way_of_run` — a run that succeeds has found a way to a cursor that the continuation
  accepts.
* `Pattern.Way.front` — a way takes a text from the front of the rest, of characters that its
  pattern accepts.
* `Pattern.Way.forward` — a way moves forward, and what it takes from the text is what it moves.
-/

namespace LineScript

/-! ### Cursors -/

/-- The offset of the end of the text a cursor stands in. -/
def Cursor.span (c : Cursor) : Nat := c.position + c.rest.length

@[simp] theorem Cursor.position_advance (c : Cursor) (n : Nat) :
    (c.advance n).position = c.position + n := rfl

@[simp] theorem Cursor.groups_advance (c : Cursor) (n : Nat) : (c.advance n).groups = c.groups := rfl

@[simp] theorem Cursor.rest_advance (c : Cursor) (n : Nat) : (c.advance n).rest = c.rest.drop n := rfl

@[simp] theorem Cursor.position_capture (c : Cursor) (name : String) (start : Nat) :
    (c.capture name start).position = c.position := rfl

@[simp] theorem Cursor.rest_capture (c : Cursor) (name : String) (start : Nat) :
    (c.capture name start).rest = c.rest := rfl

@[simp] theorem Cursor.groups_capture (c : Cursor) (name : String) (start : Nat) :
    (c.capture name start).groups = (name, start, c.position) :: c.groups := rfl

/-! ### Runs of characters -/

/-- The first `n` characters of a text are there, and each is accepted together with what
follows it. -/
def AcceptsRun (accepts : Char → List Char → Bool) : Nat → List Char → Prop
  | 0, _ => True
  | _ + 1, [] => False
  | n + 1, ch :: rest => accepts ch rest = true ∧ AcceptsRun accepts n rest

theorem AcceptsRun.le_length {accepts : Char → List Char → Bool} :
    ∀ {n : Nat} {s : List Char}, AcceptsRun accepts n s → n ≤ s.length := by
  intro n
  induction n with
  | zero => intro s _; exact Nat.zero_le _
  | succ n ih =>
    intro s h
    cases s with
    | nil => exact absurd h id
    | cons ch rest => exact Nat.succ_le_succ (ih h.2)

/-! ### Ways -/

/-- What is found first in several lists, one behind the other. -/
theorem findSome?_flatMap {α β γ : Type} (f : α → List β) (g : β → Option γ) : ∀ l : List α,
    (l.flatMap f).findSome? g = l.findSome? fun a => (f a).findSome? g
  | [] => rfl
  | a :: l => by
    rw [List.flatMap_cons, List.findSome?_append, findSome?_flatMap f g l, List.findSome?_cons]
    cases (f a).findSome? g <;> rfl

/-- A search through the same values finds the same. -/
theorem findSome?_congr {α β : Type} {f g : α → Option β} : ∀ {l : List α},
    (∀ a ∈ l, f a = g a) → l.findSome? f = l.findSome? g
  | [], _ => rfl
  | a :: l, h => by
    rw [List.findSome?_cons, List.findSome?_cons, h a List.mem_cons_self,
      findSome?_congr fun b hb => h b (List.mem_cons_of_mem a hb)]

namespace Pattern

/-- A way of matching a pattern from one cursor to another. -/
def Way : Pattern → Cursor → Cursor → Prop
  | .nothing, c, c' => c' = c
  | .one accepts, c, c' => (∃ ch rest, c.rest = ch :: rest ∧ accepts ch = true) ∧ c' = c.advance 1
  | .text s, c, c' => s <+: c.rest ∧ c' = c.advance s.length
  | .seq first second, c, c' => ∃ mid, first.Way c mid ∧ second.Way mid c'
  | .either first second, c, c' => first.Way c c' ∨ second.Way c c'
  | .chars _ accepts, c, c' => ∃ n, AcceptsRun accepts n c.rest ∧ c' = c.advance n
  | .many item, c, c' => Relation.ReflTransGen item.Way c c'
  | .group name inner, c, c' => ∃ mid, inner.Way c mid ∧ c' = mid.capture name c.position
  | .unless inner, c, c' => inner.run c some = none ∧ c' = c
  | .finish, c, c' => (c.rest = [] ∨ c.rest = ['\n']) ∧ c' = c

/-- The list holds the ways of a pattern from a cursor in the order in which a run tries them. -/
structure Tries (p : Pattern) (c : Cursor) (l : List Cursor) : Prop where
  way : ∀ c' ∈ l, p.Way c c'
  run : ∀ next, p.run c next = l.findSome? next

/-- A pattern that is matched in one way at most. -/
theorem exists_tries_of_once {p : Pattern} {c d : Cursor} {b : Bool} (hway : b = true → p.Way c d)
    (hrun : ∀ next, p.run c next = if b then next d else none) : ∃ l, p.Tries c l := by
  refine ⟨if b then [d] else [], ⟨fun c' hc' => ?_, fun next => ?_⟩⟩
  · split at hc'
    next hb =>
      rw [List.mem_singleton.1 hc']
      exact hway hb
    · cases hc'
  · rw [hrun]
    split
    · rw [List.findSome?_singleton]
    · rfl

/-- Runs of characters, the longest or the shortest first. -/
theorem exists_tries_chars (greedy : Bool) (accepts : Char → List Char → Bool)
    (groups : List (String × Nat × Nat)) : ∀ (rest : List Char) (position : Nat),
      ∃ l, (chars greedy accepts).Tries ⟨position, rest, groups⟩ l := by
  intro rest
  induction rest with
  | nil =>
    intro position
    refine exists_tries_of_once (b := true) (d := ⟨position, [], groups⟩)
      (fun _ => ⟨0, trivial, rfl⟩) fun next => ?_
    cases greedy <;> rfl
  | cons ch rest ih =>
    intro position
    have hhere : (chars greedy accepts).Way ⟨position, ch :: rest, groups⟩
        ⟨position, ch :: rest, groups⟩ := ⟨0, trivial, rfl⟩
    cases hch : accepts ch rest with
    | false =>
      refine exists_tries_of_once (b := true) (fun _ => hhere) fun next => ?_
      cases greedy with
      | true => exact longestFirst_cons_of_not hch groups next position
      | false =>
        simp only [run, shortestFirst, hch]
        cases next ⟨position, ch :: rest, groups⟩ <;> rfl
    | true =>
      obtain ⟨l, hl⟩ := ih (position + 1)
      have hon : ∀ c' ∈ l, (chars greedy accepts).Way ⟨position, ch :: rest, groups⟩ c' := by
        intro c' hc'
        obtain ⟨n, hn, rfl⟩ := hl.way c' hc'
        refine ⟨n + 1, ⟨hch, hn⟩, ?_⟩
        simp only [Cursor.advance, List.drop_succ_cons]
        congr 1
        omega
      -- the cursor itself is tried last by a greedy run, and first by a lazy one
      cases greedy with
      | true =>
        refine ⟨l ++ [⟨position, ch :: rest, groups⟩], ⟨fun c' hc' => ?_, fun next => ?_⟩⟩
        · rcases List.mem_append.1 hc' with hc' | hc'
          · exact hon c' hc'
          · rwa [List.mem_singleton.1 hc']
        · have htail : longestFirst accepts groups next (position + 1) rest = l.findSome? next :=
            hl.run next
          rw [List.findSome?_append, ← htail, List.findSome?_singleton]
          simp only [run, longestFirst, hch, if_true]
          cases longestFirst accepts groups next (position + 1) rest <;> rfl
      | false =>
        refine ⟨⟨position, ch :: rest, groups⟩ :: l, ⟨fun c' hc' => ?_, fun next => ?_⟩⟩
        · rcases List.mem_cons.1 hc' with rfl | hc'
          · exact hhere
          · exact hon c' hc'
        · have htail : shortestFirst accepts groups next (position + 1) rest = l.findSome? next :=
            hl.run next
          rw [List.findSome?_cons, ← htail]
          simp only [run, shortestFirst, hch, if_true]
          cases next ⟨position, ch :: rest, groups⟩ <;> rfl

/-- Rounds of a pattern, each of which goes on with more of them before it stops. -/
theorem exists_tries_rounds {item : Pattern} {ways : Cursor → List Cursor}
    (hways : ∀ c, item.Tries c (ways c)) : ∀ (within : List Char) (c : Cursor),
      ∃ l : List Cursor, (∀ c' ∈ l, Relation.ReflTransGen item.Way c c') ∧
        ∀ next, repeatWithin item.run within c next = l.findSome? next := by
  intro within
  induction within with
  | nil =>
    refine fun c => ⟨[c], fun c' hc' => ?_, fun next => ?_⟩
    · rw [List.mem_singleton.1 hc']
    · rw [repeatWithin, List.findSome?_singleton]
  | cons _ within ih =>
    intro c
    choose rounds hrounds hrun using ih
    -- a round has to take something, and stopping here is tried last
    refine ⟨((ways c).flatMap fun c' => if c.position < c'.position then rounds c' else []) ++ [c],
      fun c' hc' => ?_, fun next => ?_⟩
    · rcases List.mem_append.1 hc' with hc' | hc'
      · obtain ⟨mid, hmid, hc'⟩ := List.mem_flatMap.1 hc'
        split at hc'
        · exact .head ((hways c).way mid hmid) (hrounds mid c' hc')
        · cases hc'
      · rw [List.mem_singleton.1 hc']
    · have hround : (fun c' => if c.position < c'.position then repeatWithin item.run within c' next
          else none) = fun c' =>
            (if c.position < c'.position then rounds c' else []).findSome? next := by
        funext c'
        rw [hrun]
        split <;> rfl
      rw [List.findSome?_append, findSome?_flatMap, ← hround, ← (hways c).run, repeatWithin,
        List.findSome?_singleton]
      cases item.run c _ <;> rfl

/-- **A run tries the ways of a pattern one after the other**, in an order that does not depend on
what comes next. -/
theorem exists_tries (p : Pattern) : ∀ c : Cursor, ∃ l, p.Tries c l := by
  induction p with
  | nothing => exact fun c => exists_tries_of_once (b := true) (fun _ => rfl) fun _ => rfl
  | one accepts =>
    intro c
    cases hrest : c.rest with
    | nil =>
      refine ⟨[], ⟨fun c' hc' => ?_, fun next => ?_⟩⟩
      · cases hc'
      · simp [run, hrest]
    | cons ch rest =>
      exact exists_tries_of_once (fun h => ⟨⟨ch, rest, hrest, h⟩, rfl⟩) fun next => by
        simp [run, hrest]
  | text s =>
    exact fun c => exists_tries_of_once (fun h => ⟨List.isPrefixOf_iff_prefix.1 h, rfl⟩) fun _ => rfl
  | seq first second ih₁ ih₂ =>
    intro c
    obtain ⟨l, hl⟩ := ih₁ c
    choose ways hways using ih₂
    -- the second part is tried behind each way of the first one, in their order
    refine ⟨l.flatMap ways, ⟨fun c' hc' => ?_, fun next => ?_⟩⟩
    · obtain ⟨mid, hmid, hc'⟩ := List.mem_flatMap.1 hc'
      exact ⟨mid, hl.way mid hmid, (hways mid).way c' hc'⟩
    · rw [run, hl.run, findSome?_flatMap]
      exact findSome?_congr fun mid _ => (hways mid).run next
  | either first second ih₁ ih₂ =>
    intro c
    obtain ⟨l₁, hl₁⟩ := ih₁ c
    obtain ⟨l₂, hl₂⟩ := ih₂ c
    refine ⟨l₁ ++ l₂, ⟨fun c' hc' => ?_, fun next => ?_⟩⟩
    · exact (List.mem_append.1 hc').imp (hl₁.way c') (hl₂.way c')
    · rw [run, hl₁.run, hl₂.run, List.findSome?_append]
      cases l₁.findSome? next <;> rfl
  | chars greedy accepts => exact fun c => exists_tries_chars greedy accepts c.groups c.rest c.position
  | many item ih =>
    intro c
    choose ways hways using ih
    obtain ⟨l, hl, hrun⟩ := exists_tries_rounds hways c.rest c
    exact ⟨l, ⟨hl, hrun⟩⟩
  | group name inner ih =>
    intro c
    obtain ⟨l, hl⟩ := ih c
    refine ⟨l.map (·.capture name c.position), ⟨fun c' hc' => ?_, fun next => ?_⟩⟩
    · obtain ⟨mid, hmid, rfl⟩ := List.mem_map.1 hc'
      exact ⟨mid, hl.way mid hmid, rfl⟩
    · rw [run, hl.run, List.findSome?_map]
      rfl
  | «unless» inner =>
    intro c
    refine exists_tries_of_once (b := (inner.run c some).isNone) (d := c)
      (fun h => ⟨by simpa using h, rfl⟩) fun next => ?_
    rw [run]
    cases inner.run c some <;> rfl
  | finish =>
    intro c
    refine exists_tries_of_once (b := c.rest == [] || c.rest == ['\n']) (d := c)
      (fun h => ⟨by simpa using h, rfl⟩) fun next => ?_
    rw [run]
    split
    next h => simp [h]
    next ch h => simp [h]
    next hnil hone =>
      have hnil : c.rest ≠ [] := hnil
      have hone : c.rest ≠ ['\n'] := hone '\n'
      simp [hnil, hone]

/-- What a run finds depends on what comes behind its ways only. -/
theorem run_congr {p : Pattern} {c : Cursor} {next next' : Continuation}
    (h : ∀ c', p.Way c c' → next c' = next' c') : p.run c next = p.run c next' := by
  obtain ⟨l, hl⟩ := p.exists_tries c
  rw [hl.run, hl.run]
  exact findSome?_congr fun c' hc' => h c' (hl.way c' hc')

/-- **A run that succeeds has found a way** to a cursor from which the continuation succeeds
as the run does. -/
theorem way_of_run {p : Pattern} {c r : Cursor} {next : Continuation} (h : p.run c next = some r) :
    ∃ c', p.Way c c' ∧ next c' = some r := by
  obtain ⟨l, hl⟩ := p.exists_tries c
  rw [hl.run] at h
  obtain ⟨c', hc', hr⟩ := List.exists_of_findSome?_eq_some h
  exact ⟨c', hl.way c' hc', hr⟩

/-- A match of a whole pattern is the end of a way from the front of the text. -/
theorem way_of_match {p : Pattern} {s : List Char} {c : Cursor} (h : p.match? s = some c) :
    p.Way ⟨0, s, []⟩ c := by
  obtain ⟨c', hc', h⟩ := way_of_run h
  cases h
  exact hc'

/-! ### What a way takes -/

/-- The pattern takes only characters of a class. -/
def Only (P : Char → Prop) : Pattern → Prop
  | .nothing | .unless _ | .finish => True
  | .one accepts => ∀ c, accepts c = true → P c
  | .text s => ∀ c ∈ s, P c
  | .seq first second | .either first second => first.Only P ∧ second.Only P
  | .chars _ accepts => ∀ c rest, accepts c rest = true → P c
  | .many item => item.Only P
  | .group _ inner => inner.Only P

theorem only_any (p : Pattern) : p.Only fun _ => True := by
  induction p with
  | nothing | «unless» | finish => trivial
  | one | text => exact fun _ _ => trivial
  | chars => exact fun _ _ _ => trivial
  | seq _ _ ih₁ ih₂ | either _ _ ih₁ ih₂ => exact ⟨ih₁, ih₂⟩
  | many _ ih | group _ _ ih => exact ih

variable {P : Char → Prop} {c c' c'' : Cursor}

/-- Between the cursors stands a text of characters of the class. -/
def Takes (P : Char → Prop) (c c' : Cursor) : Prop :=
  ∃ front, c.rest = front ++ c'.rest ∧ c'.position = c.position + front.length ∧
    ∀ ch ∈ front, P ch

theorem Takes.refl : Takes P c c := ⟨[], rfl, rfl, fun _ h => by cases h⟩

theorem Takes.trans (h : Takes P c c') (h' : Takes P c' c'') : Takes P c c'' := by
  obtain ⟨front₁, hrest₁, hposition₁, hfront₁⟩ := h
  obtain ⟨front₂, hrest₂, hposition₂, hfront₂⟩ := h'
  refine ⟨front₁ ++ front₂, by rw [hrest₁, hrest₂, List.append_assoc], ?_, fun d hd => ?_⟩
  · rw [hposition₂, hposition₁, List.length_append, Nat.add_assoc]
  · exact (List.mem_append.1 hd).elim (hfront₁ d) (hfront₂ d)

theorem run_front {accepts : Char → List Char → Bool} (h : ∀ c rest, accepts c rest = true → P c) :
    ∀ {n : Nat} {s : List Char},
      AcceptsRun accepts n s → ∀ c ∈ s.take n, P c
  | 0, _, _, _, hc => by cases hc
  | _ + 1, [], hrun, _, _ => hrun.elim
  | n + 1, d :: rest, hrun, c, hc => by
    rcases List.mem_cons.1 hc with rfl | hc
    · exact h c rest hrun.1
    · exact run_front h hrun.2 c hc

/-- A way takes a text from the front of the rest, of characters of the class. -/
theorem Way.front : ∀ {p : Pattern}, p.Only P → ∀ {c c' : Cursor}, p.Way c c' → Takes P c c' := by
  intro p
  induction p with
  | nothing => rintro - c _ rfl; exact .refl
  | «unless» | finish => rintro - c _ ⟨-, rfl⟩; exact .refl
  | one accepts =>
    rintro h c _ ⟨⟨ch, rest, hrest, hch⟩, rfl⟩
    refine ⟨[ch], by simp [hrest], rfl, fun d hd => ?_⟩
    rw [List.mem_singleton.1 hd]
    exact h ch hch
  | text s =>
    rintro h c _ ⟨⟨rest, hrest⟩, rfl⟩
    exact ⟨s, by simp [← hrest], rfl, h⟩
  | seq first second ih₁ ih₂ =>
    rintro ⟨h₁, h₂⟩ c c' ⟨mid, hmid, hc'⟩
    exact (ih₁ h₁ hmid).trans (ih₂ h₂ hc')
  | either first second ih₁ ih₂ =>
    rintro ⟨h₁, h₂⟩ c c' (h | h)
    · exact ih₁ h₁ h
    · exact ih₂ h₂ h
  | chars greedy accepts =>
    rintro h c _ ⟨n, hn, rfl⟩
    refine ⟨c.rest.take n, (List.take_append_drop n c.rest).symm, ?_, run_front h hn⟩
    rw [Cursor.position_advance, List.length_take_of_le hn.le_length]
  | many item ih =>
    intro h c c' hway
    induction hway with
    | refl => exact .refl
    | tail _ hstep ihchain => exact ihchain.trans (ih h hstep)
  | group name inner ih =>
    rintro h c _ ⟨mid, hmid, rfl⟩
    exact (ih h hmid : Takes P c mid)

/-- A way moves forward in its text, and never past the end of it. -/
theorem Way.forward {p : Pattern} (h : p.Way c c') :
    c.position ≤ c'.position ∧ c'.span = c.span := by
  obtain ⟨front, hrest, hposition, -⟩ := h.front p.only_any
  simp only [Cursor.span, hrest, hposition, List.length_append]
  omega

end Pattern

end LineScript
