import LineScript.Proofs.StringBlindness
import LineScript.Proofs.Undivided

/-!
# What blocks on one line capture

A block on one line is matched by a pattern whose parts are as short as possible, with blanks taken
greedily between them.  A lazy part ends where the rest of the pattern first matches.  The head of a
block has no mark in it, so it ends before the blanks in front of the first mark; a body ends before
the blanks in front of the last one, since the pattern has to reach the end of the text.  So the
parts that are captured are the very texts that the block was put together from.

## Main results

* `shortestFirst_append`, `longestFirst_append` — where runs of characters end.
* `classify_loop`, `classify_function` — **a head and a body between two marks are what is captured.**
* `classify_conditional`, `classify_conditionalElse` — so are those of a conditional.
* `classify_loopOpen`, `classify_ifOpen` — a head in front of a mark opens a block.
-/

namespace LineScript

variable {s back other : List Char}

/-! ### Where runs of characters end -/

section Runs

variable {accepts : Char → List Char → Bool} {groups : List (String × Nat × Nat)}
  {next : Continuation} {r : Cursor}

/-- A lazy run ends where the continuation first succeeds. -/
theorem shortestFirst_append : ∀ {taken rest : List Char} {position : Nat},
    (∀ c ∈ taken, ∀ tail, accepts c tail = true) →
      (∀ front back, taken = front ++ back → back ≠ [] →
        next ⟨position + front.length, back ++ rest, groups⟩ = none) →
      next ⟨position + taken.length, rest, groups⟩ = some r →
        shortestFirst accepts groups next position (taken ++ rest) = some r := by
  intro taken
  induction taken with
  | nil =>
    intro rest position _ _ hnext
    cases rest with
    | nil => exact hnext
    | cons c rest =>
      have hnext : next ⟨position, c :: rest, groups⟩ = some r := hnext
      rw [List.nil_append, shortestFirst, hnext]
  | cons c taken ih =>
    intro rest position haccepts hearly hnext
    have hhere : next ⟨position, c :: (taken ++ rest), groups⟩ = none :=
      hearly [] (c :: taken) rfl (List.cons_ne_nil c taken)
    rw [List.cons_append, shortestFirst, hhere]
    dsimp only
    rw [if_pos (haccepts c List.mem_cons_self _)]
    refine ih (fun d hd => haccepts d (List.mem_cons_of_mem c hd)) (fun front back heq hback => ?_) ?_
    · have hlater := hearly (c :: front) back (by rw [heq, List.cons_append]) hback
      rwa [List.length_cons, ← Nat.add_assoc, Nat.add_right_comm] at hlater
    · rwa [List.length_cons, ← Nat.add_assoc, Nat.add_right_comm] at hnext

/-- A greedy run goes on to the first character that is not accepted. -/
theorem longestFirst_append : ∀ {taken rest : List Char} {position : Nat},
    (∀ c ∈ taken, ∀ tail, accepts c tail = true) →
      (∀ c tail, rest = c :: tail → accepts c tail = false) →
      next ⟨position + taken.length, rest, groups⟩ = some r →
        longestFirst accepts groups next position (taken ++ rest) = some r := by
  intro taken
  induction taken with
  | nil =>
    intro rest position _ hstop hnext
    cases rest with
    | nil => exact hnext
    | cons c rest => rw [List.nil_append, longestFirst_cons_of_not (hstop c rest rfl)]; exact hnext
  | cons c taken ih =>
    intro rest position haccepts hstop hnext
    rw [List.length_cons, ← Nat.add_assoc, Nat.add_right_comm] at hnext
    rw [List.cons_append, longestFirst, if_pos (haccepts c List.mem_cons_self _),
      ih (fun d hd => haccepts d (List.mem_cons_of_mem c hd)) hstop hnext]

end Runs

variable {p : Pattern}

namespace Pattern

variable {groups : List (String × Nat × Nat)} {next : Continuation} {r : Cursor} {position : Nat}

theorem run_seq (p q : Pattern) (c : Cursor) (next : Continuation) :
    (seq p q).run c next = p.run c fun c' => q.run c' next := rfl

theorem run_group (name : String) (p : Pattern) (c : Cursor) (next : Continuation) :
    (group name p).run c next = p.run c fun c' => next (c'.capture name c.position) := rfl

theorem run_optional (p : Pattern) (c : Cursor) (next : Continuation) :
    (Pattern.optional p).run c next = (p.run c next).orElse fun _ => next c := rfl

theorem run_optional_of_some {c : Cursor} (h : p.run c next = some r) :
    (Pattern.optional p).run c next = some r := by
  rw [run_optional, h]
  rfl

theorem run_text (m rest : List Char) :
    (text m).run ⟨position, m ++ rest, groups⟩ next =
      next ⟨position + m.length, rest, groups⟩ := by
  rw [run, if_pos (List.isPrefixOf_iff_prefix.2 (List.prefix_append m rest))]
  simp [Cursor.advance]

/-- A text that does not begin with the mark. -/
theorem run_unless {m : Char} (h : ∀ c ∈ s.head?, c ≠ m) :
    («unless» (text [m])).run ⟨position, s, groups⟩ next = next ⟨position, s, groups⟩ := by
  have hfits : [m].isPrefixOf s = false := by
    cases s with
    | nil => rfl
    | cons c s => exact isPrefixOf_singleton_of_ne (Ne.symm (h c rfl)) s
  simp [run, hfits]

/-- The last mark of a text, with its end. -/
theorem run_last (m : List Char) : ((text m).run ⟨position, m, groups⟩ fun c => finish.run c some) =
    some ⟨position + m.length, [], groups⟩ := by
  rw [run, if_pos (List.isPrefixOf_iff_prefix.2 List.prefix_rfl)]
  simp [Cursor.advance, run]

variable {rest : List Char}

/-- Blanks are taken up to the first character that is none. -/
theorem run_blanks {gap : List Char} (hgap : Blanks gap)
    (hrest : ∀ c ∈ rest.head?, isBlank c = false)
    (hnext : next ⟨position + gap.length, rest, groups⟩ = some r) :
    blanks.run ⟨position, gap ++ rest, groups⟩ next = some r :=
  longestFirst_append (fun c hc _ => hgap c hc) (fun c tail heq => hrest c (by rw [heq]; rfl)) hnext

/-- A character and as few more behind it as possible. -/
theorem run_shortest {first : Char → Bool} {accepts : Char → List Char → Bool} {taken : List Char}
    (hne : taken ≠ []) (hfirst : ∀ c ∈ taken.head?, first c = true)
    (haccepts : ∀ c ∈ taken, ∀ tail, accepts c tail = true)
    (hearly : ∀ front back, taken = front ++ back → back ≠ [] →
      next ⟨position + front.length, back ++ rest, groups⟩ = none)
    (hnext : next ⟨position + taken.length, rest, groups⟩ = some r) :
    (seq (one first) (chars false accepts)).run ⟨position, taken ++ rest, groups⟩ next = some r := by
  obtain ⟨c, taken, rfl⟩ := List.exists_cons_of_ne_nil hne
  have hlength : ∀ front : List Char, position + (c :: front).length =
      position + 1 + front.length := by
    intro front
    rw [List.length_cons]
    omega
  change (if first c then shortestFirst accepts groups next (position + 1) (taken ++ rest)
    else none) = some r
  rw [if_pos (hfirst c rfl)]
  refine shortestFirst_append (fun d hd => haccepts d (List.mem_cons_of_mem c hd))
    (fun front back heq hback => ?_) (hlength taken ▸ hnext)
  rw [← hlength]
  exact hearly (c :: front) back (by rw [heq, List.cons_append]) hback

/-- A head without the mark, with as few characters as possible. -/
theorem run_without {m : Char} {head : List Char} (hne : head ≠ [])
    (hhead : ∀ c ∈ head, c ≠ m ∧ c ≠ '\n')
    (hearly : ∀ front back, head = front ++ back → back ≠ [] →
      next ⟨position + front.length, back ++ rest, groups⟩ = none)
    (hnext : next ⟨position + head.length, rest, groups⟩ = some r) :
    (without [m]).run ⟨position, head ++ rest, groups⟩ next = some r := by
  have hline : ∀ c ∈ head, inLine c = true := fun c hc => by simp [inLine, (hhead c hc).2]
  have hfirst : ∀ c ∈ (head ++ rest).head?, c ≠ m := by
    rw [List.head?_append_of_ne_nil _ hne]
    exact fun c hc => (hhead c (List.mem_of_mem_head? hc)).1
  change («unless» (text [m])).run _
    (fun c => (seq (one inLine) (chars false (avoids [m]))).run c next) = some r
  rw [run_unless hfirst]
  refine run_shortest hne (fun c hc => hline c (List.mem_of_mem_head? hc)) (fun c hc tail => ?_)
    hearly hnext
  simp [avoids, hline c hc, isPrefixOf_singleton_of_ne (Ne.symm (hhead c hc).1)]

/-- A body, with as few characters as possible. -/
theorem run_lazyBody {body : List Char} (hbody : Solid body) (hline : '\n' ∉ body)
    (hearly : ∀ front back, body = front ++ back → back ≠ [] →
      next ⟨position + front.length, back ++ rest, groups⟩ = none)
    (hnext : next ⟨position + body.length, rest, groups⟩ = some r) :
    lazyBody.run ⟨position, body ++ rest, groups⟩ next = some r := by
  refine run_shortest hbody.ne_nil (fun c hc => ?_) (fun c hc _ => ?_) hearly hnext
  · rw [hbody.first c hc]
    rfl
  · rw [inLine, bne_iff_ne]
    rintro rfl
    exact hline hc

/-! ### Where the rest of a pattern does not match -/

theorem run_eq_none {c : Cursor} (h : ∀ c', ¬ p.Way c c') : p.run c next = none := by
  cases hrun : p.run c next with
  | none => rfl
  | some d =>
    obtain ⟨c', hway, -⟩ := way_of_run hrun
    exact absurd hway (h c')

/-- Behind blanks that a solid text begins with, something of it is left. -/
theorem Way.blanks_lt {c' : Cursor} (hback : ∃ c ∈ back, isBlank c = false)
    (h : blanks.Way ⟨position, back ++ rest, groups⟩ c') :
    ∃ n, n < back.length ∧ c' = Cursor.advance ⟨position, back ++ rest, groups⟩ n := by
  obtain ⟨n, hrun, rfl⟩ := h
  refine ⟨n, ?_, rfl⟩
  obtain ⟨c, hc, hsolid⟩ := hback
  by_contra hle
  have hmem : c ∈ (back ++ rest).take n := by
    rw [List.take_append, List.take_of_length_le (by omega)]
    exact List.mem_append_left _ hc
  have hblank := run_front (P := fun c => isBlank c = true) (fun _ _ h => h) hrun c hmem
  rw [hsolid] at hblank
  cases hblank

/-- Before the end of a text without the mark, no mark follows. -/
theorem run_mark_none {m : Char} (hp : ∀ c c', p.Way c c' → [m] <+: c.rest)
    (hback : ∃ c ∈ back, isBlank c = false) (hm : m ∉ back) :
    (seq blanks p).run ⟨position, back ++ rest, groups⟩ next = none := by
  refine run_eq_none ?_
  rintro c' ⟨mid, hblanks, hway⟩
  obtain ⟨n, hn, rfl⟩ := hblanks.blanks_lt hback
  have hfits := hp _ _ hway
  rw [Cursor.rest_advance, List.drop_append_of_le_length (Nat.le_of_lt hn),
    List.drop_eq_getElem_cons hn, List.cons_append] at hfits
  obtain ⟨heq, -⟩ := List.cons_prefix_cons.1 hfits
  exact hm (heq ▸ List.getElem_mem hn)

/-- Before the last mark of a text, no mark ends it. -/
theorem run_last_none {m : Char} (hm : m ≠ '\n') {gap : List Char}
    (hback : ∃ c ∈ back, isBlank c = false) :
    (seq blanks (seq (text [m]) finish)).run ⟨position, back ++ (gap ++ [m]), groups⟩ next =
      none := by
  refine run_eq_none ?_
  rintro c' ⟨mid, hblanks, mid', ⟨-, rfl⟩, hfinish, -⟩
  obtain ⟨n, hn, rfl⟩ := hblanks.blanks_lt hback
  -- more than the last character of the text is left
  simp only [Cursor.rest_advance, List.length_singleton, List.drop_drop] at hfinish
  rw [← List.append_assoc, List.drop_append_of_le_length (by simp; omega)] at hfinish
  rcases hfinish with hfinish | hfinish
  · simp at hfinish
  · have hlast := congrArg List.getLast? hfinish
    rw [List.getLast?_append_of_ne_nil _ (List.cons_ne_nil m [])] at hlast
    exact hm (Option.some.inj hlast)

end Pattern

/-! ### Patterns of blocks -/

/-- A head and a body between two marks. -/
def oneLine (head gap : List Char) (m : Char) (body : List Char) : List Char :=
  head ++ (gap ++ ([m] ++ ([' '] ++ (body ++ ([' '] ++ [m])))))

/-- Two bodies with the mark of the last branch between them. -/
def withElse (m : Char) (body other : List Char) : List Char :=
  body ++ ([' '] ++ ([m, m] ++ ([' '] ++ other)))

section Blocks

open Pattern

variable {m : Char} {head gap body : List Char} {position : Nat}
  {groups : List (String × Nat × Nat)}

/-- Before the end of a head, the rest of the pattern does not match: it begins with the mark. -/
theorem run_head_none (hp : ∀ c c', p.Way c c' → [m] <+: c.rest) (hhead : Solid head)
    (hfree : ∀ c ∈ head, c ≠ m ∧ c ≠ '\n') {front rest : List Char} {next : Continuation}
    (heq : head = front ++ back) (hback : back ≠ []) :
    (seq blanks p).run ⟨position, back ++ rest, groups⟩ next = none := by
  refine run_mark_none hp (hhead.exists_mem heq hback) fun hmem => ?_
  exact (hfree m (heq ▸ List.mem_append_right front hmem)).1 rfl

theorem mark_of_text {more : List Char} {q : Pattern} (c c' : Cursor)
    (h : (seq (text (m :: more)) q).Way c c') : [m] <+: c.rest := by
  obtain ⟨_, ⟨hfits, -⟩, -⟩ := h
  exact (List.prefix_append [m] more).trans hfits

variable (hm : isBlank m = false)

include hm

/-- The last body of a block, with the mark at its end. -/
theorem run_lastBody (name : String) (hbody : Solid body) (hline : '\n' ∉ body) :
    (seq (group name lazyBody) (seq blanks (seq (text [m]) finish))).run
      ⟨position, body ++ ([' '] ++ [m]), groups⟩ some =
      some ⟨position + body.length + 2, [], (name, position, position + body.length) :: groups⟩ := by
  have hmn : m ≠ '\n' := by
    rintro rfl
    cases hm
  simp only [run_seq, run_group]
  refine run_lazyBody hbody hline (fun front back heq hback => ?_) ?_
  · exact run_last_none hmn (hbody.exists_mem heq hback)
  · exact run_blanks (List.forall_mem_singleton.2 rfl) (by simpa using hm) (run_last [m])

variable (hhead : Solid head) (hfree : ∀ c ∈ head, c ≠ m ∧ c ≠ '\n') (hgap : Blanks gap)

include hhead hfree hgap

/-- A head in front of a mark. -/
theorem match_openPattern :
    (Rule.openPattern [m]).match? (head ++ (gap ++ [m])) =
      some ⟨head.length + gap.length + 1, [], [("condition", 0, head.length)]⟩ := by
  have hline : ∀ c ∈ head, inLine c = true := fun c hc => by simp [inLine, (hfree c hc).2]
  unfold Pattern.match? Rule.openPattern
  simp only [Pattern.all, run_seq, run_group]
  refine run_shortest hhead.ne_nil (fun c hc => hline c (List.mem_of_mem_head? hc))
    (fun c hc _ => hline c hc) (fun front back heq hback => ?_) ?_
  · exact run_head_none (p := seq (text [m]) finish) mark_of_text hhead hfree heq hback
  refine run_blanks hgap (by simpa using hm) ((run_last [m]).trans ?_)
  simp

/-- A head with its mark, up to a body. -/
theorem run_head (name : String) (hbody : Solid body) {q : Pattern} {rest : List Char} {r : Cursor}
    (hnext : q.run ⟨head.length + gap.length + 2, body ++ rest, [(name, 0, head.length)]⟩ some =
      some r) :
    (seq (group name (without [m])) (seq blanks (seq (text [m]) (seq blanks q)))).match?
      (head ++ (gap ++ ([m] ++ ([' '] ++ (body ++ rest))))) = some r := by
  simp only [Pattern.match?, run_seq, run_group]
  refine run_without hhead.ne_nil hfree (fun front back heq hback => ?_) ?_
  · exact run_head_none (p := seq (text [m]) _) mark_of_text hhead hfree heq hback
  refine run_blanks hgap (by simpa using hm) ?_
  rw [run_text]
  refine run_blanks (List.forall_mem_singleton.2 rfl) ?_ ?_
  · rw [List.head?_append_of_ne_nil _ hbody.ne_nil]
    exact hbody.first
  · simpa [Cursor.capture] using hnext

variable (hbody : Solid body)

include hbody

/-- **A head and a body between two marks are what the pattern captures.** -/
theorem match_inlinePattern (name : String) (hline : '\n' ∉ body) :
    (Rule.inlinePattern name [m]).match? (oneLine head gap m body) =
      some ⟨head.length + gap.length + 2 + body.length + 2, [],
        [("body", head.length + gap.length + 2, head.length + gap.length + 2 + body.length),
          (name, 0, head.length)]⟩ :=
  run_head hm hhead hfree hgap name hbody (run_lastBody hm "body" hbody hline)

/-- What may stand behind the first branch of a conditional, if there is a second one. -/
private def otherPart (m : Char) : Pattern :=
  seq (text [m, m]) (seq blanks (seq (group "otherwise" lazyBody) blanks))

omit hm hhead hfree hgap hbody in
private theorem mark_of_rest {c c' : Cursor}
    (h : (seq (optional (otherPart m)) (seq (text [m]) finish)).Way c c') : [m] <+: c.rest := by
  obtain ⟨_, hother | rfl, _, ⟨hfits, -⟩, -⟩ := h
  · exact mark_of_text _ _ hother
  · exact hfits

variable (hbodyfree : ∀ c ∈ body, c ≠ m ∧ c ≠ '\n')

include hbodyfree

/-- The parts of a conditional on one line, up to what stands behind its first branch. -/
private theorem run_inlineIf {rest : List Char} {r : Cursor}
    (hrest : ∀ c ∈ rest.head?, isBlank c = false)
    (hnext : (seq (optional (otherPart m)) (seq (text [m]) finish)).run
      ⟨head.length + gap.length + 2 + body.length + 1, rest,
        [("then", head.length + gap.length + 2, head.length + gap.length + 2 + body.length),
          ("condition", 0, head.length)]⟩ some = some r) :
    (Rule.inlineIfPattern [m] [m, m]).match?
      (head ++ (gap ++ ([m] ++ ([' '] ++ (body ++ ([' '] ++ rest)))))) = some r := by
  refine run_head hm hhead hfree hgap "condition" hbody ?_
  have hfirst : ∀ c ∈ (body ++ ([' '] ++ rest)).head?, c ≠ m := by
    rw [List.head?_append_of_ne_nil _ hbody.ne_nil]
    exact fun c hc => (hbodyfree c (List.mem_of_mem_head? hc)).1
  simp only [Pattern.all, run_seq, run_group]
  rw [run_unless hfirst]
  refine run_lazyBody hbody (fun hmem => (hbodyfree _ hmem).2 rfl) (fun front back heq hback => ?_) ?_
  · exact run_head_none (fun _ _ => mark_of_rest) hbody hbodyfree heq hback
  · exact run_blanks (List.forall_mem_singleton.2 rfl) hrest hnext

/-- A conditional with one branch on one line. -/
theorem match_inlineIf :
    (Rule.inlineIfPattern [m] [m, m]).match? (oneLine head gap m body) =
      some ⟨head.length + gap.length + 2 + body.length + 2, [],
        [("then", head.length + gap.length + 2, head.length + gap.length + 2 + body.length),
          ("condition", 0, head.length)]⟩ := by
  refine run_inlineIf hm hhead hfree hgap hbody hbodyfree (by simpa using hm) ?_
  -- one mark is no beginning of a last branch
  have hother : ∀ c : Cursor, c.rest = [m] → ∀ next, (otherPart m).run c next = none := by
    intro c hc next
    simp [otherPart, run_seq, Pattern.run, List.isPrefixOf, hc]
  rw [run_seq, run_optional, hother _ rfl]
  exact run_last [m]

/-- A conditional with two branches on one line. -/
theorem match_inlineIfElse (hother : Solid other) (hline : '\n' ∉ other) :
    (Rule.inlineIfPattern [m] [m, m]).match? (oneLine head gap m (withElse m body other)) =
      some ⟨head.length + gap.length + 2 + body.length + 4 + other.length + 2, [],
        [("otherwise", head.length + gap.length + 2 + body.length + 4,
            head.length + gap.length + 2 + body.length + 4 + other.length),
          ("then", head.length + gap.length + 2, head.length + gap.length + 2 + body.length),
          ("condition", 0, head.length)]⟩ := by
  simp only [oneLine, withElse, List.append_assoc]
  refine run_inlineIf hm hhead hfree hgap hbody hbodyfree (by simpa using hm) ?_
  refine run_optional_of_some ?_
  simp only [otherPart, run_seq]
  rw [run_text]
  refine run_blanks (List.forall_mem_singleton.2 rfl) ?_ (run_lastBody hm "otherwise" hother hline)
  rw [List.head?_append_of_ne_nil _ hother.ne_nil]
  exact hother.first

omit hm hhead hfree hgap hbody hbodyfree

/-- The only mark of a text is at its end, so nothing stands behind a mark. -/
theorem drop_behind_mark (hs : m ∉ s) {j : Nat} (h : [m] <+: (s ++ [m]).drop j) :
    (s ++ [m]).drop (j + 1) = [] := by
  by_cases hj : j < s.length
  · rw [List.drop_append_of_le_length (Nat.le_of_lt hj), List.drop_eq_getElem_cons hj,
      List.cons_append] at h
    obtain ⟨heq, -⟩ := List.cons_prefix_cons.1 h
    exact absurd (heq ▸ List.getElem_mem hj) hs
  · refine List.drop_of_length_le ?_
    rw [List.length_append, List.length_singleton]
    omega

theorem ne_cons_behind_mark (hs : m ∉ s) {j n : Nat} (h : [m] <+: (s ++ [m]).drop j) (c : Char)
    (rest : List Char) : (s ++ [m]).drop (j + 1 + n) ≠ c :: rest := by
  rw [← List.drop_drop, drop_behind_mark hs h, List.drop_nil]
  exact fun heq => List.cons_ne_nil c rest heq.symm

/-- A text with one mark is no block between two marks. -/
theorem not_way_inlinePattern (hs : m ∉ s) (name : String) (c : Cursor) :
    ¬ (Rule.inlinePattern name [m]).Way ⟨0, s ++ [m], []⟩ c := by
  rintro ⟨_, ⟨_, ⟨_, ⟨-, rfl⟩, _, ⟨-, rfl⟩, n₁, -, rfl⟩, rfl⟩, _, ⟨n₂, -, rfl⟩, _, ⟨hfits, rfl⟩, _,
    ⟨n₃, -, rfl⟩, _, ⟨_, ⟨_, ⟨⟨ch, rest, hrest, -⟩, -⟩, -⟩, -⟩, -⟩
  simp only [Cursor.rest_advance, Cursor.rest_capture, List.drop_drop] at hfits hrest
  exact ne_cons_behind_mark hs hfits ch rest hrest

/-- Nor is it a conditional on one line. -/
theorem not_way_inlineIfPattern (hs : m ∉ s) (c : Cursor) :
    ¬ (Rule.inlineIfPattern [m] [m, m]).Way ⟨0, s ++ [m], []⟩ c := by
  rintro ⟨_, ⟨_, ⟨_, ⟨-, rfl⟩, _, ⟨-, rfl⟩, n₁, -, rfl⟩, rfl⟩, _, ⟨n₂, -, rfl⟩, _, ⟨hfits, rfl⟩, _,
    ⟨n₃, -, rfl⟩, _, ⟨_, ⟨_, ⟨-, rfl⟩, _, ⟨⟨ch, rest, hrest, -⟩, -⟩, -⟩, -⟩, -⟩
  simp only [Cursor.rest_advance, Cursor.rest_capture, List.drop_drop] at hfits hrest
  exact ne_cons_behind_mark hs hfits ch rest hrest

end Blocks

/-! ### Recognising blocks -/

/-- A text is recognised by the first rule that matches it. -/
theorem classify_of_match {s : Symbols} {text : List Char} {r : Rule} {c : Cursor}
    (earlier : List Rule) {later : List Rule} (hall : Rule.all = earlier ++ r :: later)
    (hearlier : ∀ r' ∈ earlier, matchRule? s text (mask text) r' = none)
    (hmay : r.mayMatch s (mask text) = true) (hmatch : (r.pattern s).match? (mask text) = some c) :
    classify s text = (r.matchAt s text c).form := by
  have hrule : matchRule? s text (mask text) r = some (r.matchAt s text c) := by
    rw [matchRule?_eq, if_pos hmay, hmatch]
    rfl
  unfold classify findRule?
  dsimp only
  rw [hall, List.findSome?_append, List.findSome?_eq_none_iff.2 hearlier, List.findSome?_cons, hrule]
  rfl

theorem matchRule?_of_not_mayMatch {s : Symbols} {text masked : List Char} {r : Rule}
    (h : r.mayMatch s masked = false) : matchRule? s text masked r = none := by
  rw [matchRule?_eq, h]
  rfl

theorem matchRule?_of_not_way {s : Symbols} {text masked : List Char} {r : Rule}
    (h : ∀ c, ¬ (r.pattern s).Way ⟨0, masked, []⟩ c) : matchRule? s text masked r = none := by
  have hmatch : (r.pattern s).match? masked = none := Pattern.run_eq_none h
  rw [matchRule?_eq, hmatch, ite_self]
  rfl

section

variable {r : Rule} {m c : Char} (hr : (r.lastMark? standardSymbols).map String.toList = some [m])

include hr

/-- A rule whose last mark is a single character looks at the last character of a text. -/
theorem mayMatch_append (hc : c ≠ '\n') (front : List Char) :
    r.mayMatch standardSymbols (front ++ [c]) = (m == c) := by
  have hn : ('\n' == c) = false := beq_eq_false_iff_ne.2 (Ne.symm hc)
  obtain ⟨mark, hmark, heq⟩ := Option.map_eq_some_iff.1 hr
  unfold Rule.mayMatch
  rw [hmark, Option.all_some, heq]
  simp [Rule.endsWith, List.isSuffixOf, List.isPrefixOf, hn]

theorem matchRule?_of_last {text front : List Char} (hc : c ≠ '\n') (hne : m ≠ c) :
    matchRule? standardSymbols text (front ++ [c]) r = none :=
  matchRule?_of_not_mayMatch ((mayMatch_append hr hc front).trans (beq_eq_false_iff_ne.2 hne))

end

/-- A head of a block: it is solid, and has neither borders nor line feeds. -/
structure IsHead (head : List Char) : Prop where
  solid : Solid head
  undivided : Undivided head
  inLine : '\n' ∉ head

namespace IsHead

variable {head : List Char} (h : IsHead head)

include h

theorem solid_mask : Solid (mask head) := h.solid.mask

/-- No border and no line feed shows in the masked form of a head. -/
theorem free {m : Char} (hm : isBorder m = true) : ∀ c ∈ mask head, c ≠ m ∧ c ≠ '\n' := by
  intro c hc
  refine ⟨?_, ?_⟩
  · rintro rfl
    exact Bool.noConfusion (hm.symm.trans (h.undivided.free c hc))
  · rintro rfl
    exact h.inLine (mem_of_mem_maskFrom hc (by decide))

/-- What begins with a head is no comment. -/
theorem matchRule?_comment (text rest : List Char) :
    matchRule? standardSymbols text (mask (head ++ rest)) .comment = none := by
  refine matchRule?_of_not_way fun c hway => ?_
  have hmask : mask (head ++ rest) = mask head ++ mask rest := mask_append h.undivided.closed rest
  obtain ⟨d, tail, heq⟩ := List.exists_cons_of_ne_nil h.solid_mask.ne_nil
  have hfits : standardSymbols.comment.toList.isPrefixOf (mask (head ++ rest)) = true := by
    refine isPrefixOf_of_comment_way (fun d' tail' heq' => ?_) hway
    rw [hmask, heq] at heq'
    cases heq'
    exact h.solid_mask.first d (by rw [heq]; rfl)
  rw [hmask, heq] at hfits
  obtain ⟨rfl, -⟩ := List.cons_prefix_cons.1 (List.isPrefixOf_iff_prefix.1 hfits)
  exact (h.free (m := '\\') rfl '\\' (heq ▸ List.mem_cons_self)).1 rfl

/-- **A text that begins with a head is recognised by the first rule that matches it**, which is
not the rule for comments. -/
theorem classify_eq {rest front : List Char} {r : Rule} {m : Char} {c : Cursor}
    (earlier : List Rule) {later : List Rule} (hall : Rule.all = .comment :: earlier ++ r :: later)
    (hearlier : ∀ r' ∈ earlier,
      matchRule? standardSymbols (head ++ rest) (mask (head ++ rest)) r' = none)
    (hend : mask (head ++ rest) = front ++ [m]) (hm : m ≠ '\n')
    (hmark : (r.lastMark? standardSymbols).map String.toList = some [m])
    (hmatch : (r.pattern standardSymbols).match? (mask (head ++ rest)) = some c) :
    classify standardSymbols (head ++ rest) =
      (r.matchAt standardSymbols (head ++ rest) c).form := by
  refine classify_of_match (.comment :: earlier) hall ?_ ?_ hmatch
  · exact List.forall_mem_cons.2 ⟨h.matchRule?_comment _ rest, hearlier⟩
  · rw [hend, mayMatch_append hmark hm, beq_self_eq_true]

end IsHead

/-- A body of a block: it is solid, every literal in it has its end, and it has no line feeds. -/
structure IsBody (body : List Char) : Prop where
  solid : Solid body
  closed : Closed body
  inLine : '\n' ∉ body

namespace IsBody

variable {body : List Char} (h : IsBody body)

include h

theorem solid_mask : Solid (mask body) := h.solid.mask

theorem inLine_mask : '\n' ∉ mask body := fun hmem =>
  h.inLine (mem_of_mem_maskFrom hmem (by decide))

theorem free {m : Char} (hm : m ∉ mask body) : ∀ c ∈ mask body, c ≠ m ∧ c ≠ '\n' := fun _ hc =>
  ⟨fun heq => hm (heq ▸ hc), fun heq => h.inLine_mask (heq ▸ hc)⟩

theorem mask_withElse (other : List Char) :
    mask (LineScript.withElse '?' body other) = LineScript.withElse '?' (mask body)
    (mask other) := by
  have hspace : Closed [' '] := rfl
  unfold LineScript.withElse
  rw [mask_append h.closed, mask_append hspace, mask_append (s := ['?', '?']) rfl,
    mask_append hspace]
  rfl

theorem withElse (hother : IsBody other) :
    IsBody (LineScript.withElse '?' body other) where
  solid := by
    have hsolid := h.solid.append hother.solid ([' '] ++ (['?', '?'] ++ [' ']))
    simpa [LineScript.withElse] using hsolid
  closed := by
    refine h.closed.append_iff.2 ?_
    rw [← List.append_assoc, ← List.append_assoc]
    exact (show Closed ([' '] ++ ['?', '?'] ++ [' ']) from rfl).append_iff.2 hother.closed
  inLine := by simp [LineScript.withElse, h.inLine, hother.inLine]

end IsBody

/-- What stands between two offsets. -/
theorem slice_append (front part rest : List Char) {i j : Nat} (hi : i = front.length)
    (hj : j = i + part.length) : slice (front ++ (part ++ rest)) i j = part := by
  subst hi hj
  simp [slice]

theorem slice_front (front rest : List Char) : slice (front ++ rest) 0 front.length = front := by
  simp [slice]

/-- Neither of the rules for loops and functions on one line matches a conditional. -/
theorem matchRule?_conditional {text masked front : List Char} (hend : masked = front ++ ['?']) :
    ∀ r ∈ [Rule.inlineLoop, .inlineFunction], matchRule? standardSymbols text masked r = none := by
  rw [hend]
  exact List.forall_mem_cons.2 ⟨matchRule?_of_last (m := '@') rfl (by decide) (by decide),
    List.forall_mem_singleton.2 (matchRule?_of_last (m := '#') rfl (by decide) (by decide))⟩

section Forms

variable {head gap body : List Char} (hhead : IsHead head) (hgap : Blanks gap) (hbody : IsBody body)

theorem oneLine_eq (head gap : List Char) (m : Char) (body : List Char) :
    oneLine head gap m body = (head ++ (gap ++ ([m] ++ ([' '] ++ (body ++ [' ']))))) ++ [m] := by
  simp [oneLine]

theorem slice_oneLine_head (head gap : List Char) (m : Char) (body : List Char) :
    slice (oneLine head gap m body) 0 head.length = head :=
  slice_front head _

theorem slice_oneLine_body (head gap : List Char) (m : Char) (body : List Char) :
    slice (oneLine head gap m body) (head.length + gap.length + 2)
      (head.length + gap.length + 2 + body.length) = body := by
  have heq : oneLine head gap m body = (head ++ gap ++ [m, ' ']) ++ (body ++ ([' '] ++ [m])) := by
    simp [oneLine]
  rw [heq]
  exact slice_append _ body _ (by simp [Nat.add_assoc]) rfl

include hhead hgap hbody

theorem mask_oneLine {m : Char} (hm : isQuote m = false) :
    mask (oneLine head gap m body) = oneLine (mask head) gap m (mask body) := by
  have hspace : QuoteFree [' '] := quoteFree_singleton rfl
  have hmark : QuoteFree [m] := quoteFree_singleton hm
  unfold oneLine
  rw [mask_append hhead.undivided.closed, mask_append (closed_of_quoteFree hgap.bare.quoteFree),
    mask_append (closed_of_quoteFree hmark), mask_append (closed_of_quoteFree hspace),
    mask_append hbody.closed, mask_append (closed_of_quoteFree hspace), mask_of_quoteFree hmark,
    mask_of_quoteFree hspace, mask_of_quoteFree hgap.bare.quoteFree]

/-- **A loop on one line** is the loop of its head and its body. -/
theorem classify_loop :
    classify standardSymbols (oneLine head gap '@' body) = .inline (.loop head body) := by
  have hmask := mask_oneLine hhead hgap hbody (m := '@') rfl
  have hmatch := match_inlinePattern (m := '@') rfl hhead.solid_mask (hhead.free rfl) hgap
    hbody.solid_mask "condition" hbody.inLine_mask
  simp only [length_mask, ← hmask] at hmatch
  refine (hhead.classify_eq [] rfl (fun _ h => absurd h List.not_mem_nil)
    (hmask.trans (oneLine_eq ..)) (by decide) rfl hmatch).trans ?_
  change Form.inline (.loop (slice (oneLine head gap '@' body) 0 head.length)
    (slice (oneLine head gap '@' body) (head.length + gap.length + 2)
      (head.length + gap.length + 2 + body.length))) = _
  rw [slice_oneLine_head, slice_oneLine_body]

/-- **A function on one line** is the function of its head and its body. -/
theorem classify_function :
    classify standardSymbols (oneLine head gap '#' body) = .inline (.function head body) := by
  have hmask := mask_oneLine hhead hgap hbody (m := '#') rfl
  have hend := hmask.trans (oneLine_eq ..)
  have hmatch := match_inlinePattern (m := '#') rfl hhead.solid_mask (hhead.free rfl) hgap
    hbody.solid_mask "header" hbody.inLine_mask
  simp only [length_mask, ← hmask] at hmatch
  refine (hhead.classify_eq [.inlineLoop] rfl (fun r hr => ?_) hend (by decide) rfl hmatch).trans ?_
  · rw [List.mem_singleton.1 hr]
    exact (congrArg (matchRule? standardSymbols _ · .inlineLoop) hend).trans
      (matchRule?_of_last (m := '@') rfl (by decide) (by decide))
  change Form.inline (.function (slice (oneLine head gap '#' body) 0 head.length)
    (slice (oneLine head gap '#' body) (head.length + gap.length + 2)
      (head.length + gap.length + 2 + body.length))) = _
  rw [slice_oneLine_head, slice_oneLine_body]

/-- **A conditional with one branch on one line** has its head and its body. -/
theorem classify_conditional (hfree : '?' ∉ mask body) :
    classify standardSymbols (oneLine head gap '?' body) =
      .inline (.conditional head body none) := by
  have hmask := mask_oneLine hhead hgap hbody (m := '?') rfl
  have hend := hmask.trans (oneLine_eq ..)
  have hmatch := match_inlineIf (m := '?') rfl hhead.solid_mask (hhead.free rfl) hgap
    hbody.solid_mask (hbody.free hfree)
  simp only [length_mask, ← hmask] at hmatch
  refine (hhead.classify_eq [.inlineLoop, .inlineFunction] rfl (matchRule?_conditional hend) hend
    (by decide) rfl hmatch).trans ?_
  change Form.inline (.conditional (slice (oneLine head gap '?' body) 0 head.length)
    (slice (oneLine head gap '?' body) (head.length + gap.length + 2)
      (head.length + gap.length + 2 + body.length)) none) = _
  rw [slice_oneLine_head, slice_oneLine_body]

/-- **A conditional with two branches on one line** has its head and its bodies. -/
theorem classify_conditionalElse (hfree : '?' ∉ mask body) (hother : IsBody other) :
    classify standardSymbols (oneLine head gap '?' (withElse '?' body other)) =
      .inline (.conditional head body (some other)) := by
  have hmask := mask_oneLine hhead hgap (hbody.withElse hother) (m := '?') rfl
  have hend := hmask.trans (oneLine_eq ..)
  have hmatch := match_inlineIfElse (m := '?') rfl hhead.solid_mask (hhead.free rfl) hgap
    hbody.solid_mask (hbody.free hfree) hother.solid_mask hother.inLine_mask
  rw [← hbody.mask_withElse, ← hmask] at hmatch
  simp only [length_mask] at hmatch
  refine (hhead.classify_eq [.inlineLoop, .inlineFunction] rfl (matchRule?_conditional hend) hend
    (by decide) rfl hmatch).trans ?_
  have hthen : oneLine head gap '?' (withElse '?' body other) =
      (head ++ gap ++ ['?', ' ']) ++ (body ++ ([' ', '?', '?', ' '] ++ other ++ [' ', '?'])) := by
    simp [oneLine, withElse]
  have helse : oneLine head gap '?' (withElse '?' body other) =
      (head ++ gap ++ ['?', ' '] ++ body ++ [' ', '?', '?', ' ']) ++ (other ++ [' ', '?']) := by
    simp [oneLine, withElse]
  change Form.inline (.conditional
    (slice (oneLine head gap '?' (withElse '?' body other)) 0 head.length)
    (slice (oneLine head gap '?' (withElse '?' body other)) (head.length + gap.length + 2)
      (head.length + gap.length + 2 + body.length))
    (some (slice (oneLine head gap '?' (withElse '?' body other))
      (head.length + gap.length + 2 + body.length + 4)
      (head.length + gap.length + 2 + body.length + 4 + other.length)))) = _
  rw [slice_oneLine_head, hthen, slice_append _ body _ (by simp [Nat.add_assoc]) rfl, ← hthen, helse,
    slice_append _ other _ (by simp [Nat.add_assoc, Nat.add_left_comm]) rfl]

end Forms

/-! ### Heads in front of a mark -/

section Heads

variable {head gap : List Char} (hhead : IsHead head) (hgap : Blanks gap)

include hhead hgap

variable {m : Char}

theorem mask_head (hm : isQuote m = false) :
    mask (head ++ (gap ++ [m])) = mask head ++ gap ++ [m] := by
  rw [mask_append hhead.undivided.closed, mask_append (closed_of_quoteFree hgap.bare.quoteFree),
    mask_of_quoteFree hgap.bare.quoteFree, mask_of_quoteFree (quoteFree_singleton hm),
    List.append_assoc]

theorem not_mem_head (hm : isBorder m = true) : m ∉ mask head ++ gap := by
  intro hmem
  rcases List.mem_append.1 hmem with hmem | hmem
  · exact (hhead.free hm m hmem).1 rfl
  · exact Bool.noConfusion (hm.symm.trans (hgap.bare m hmem).2)

omit hgap in
/-- What begins with the mark does not begin with a head. -/
theorem not_way_of_mark (hm : isBorder m = true) (hp : ∀ c c', p.Way c c' → [m] <+: c.rest)
    (c : Cursor) :
    ¬ p.Way ⟨0, mask head ++ gap ++ [m], []⟩ c := by
  intro hway
  have hfits := hp _ _ hway
  obtain ⟨d, tail, heq⟩ := List.exists_cons_of_ne_nil hhead.solid_mask.ne_nil
  rw [heq] at hfits
  obtain ⟨rfl, -⟩ := List.cons_prefix_cons.1 hfits
  exact (hhead.free hm m (heq ▸ List.mem_cons_self)).1 rfl

/-- **A head in front of the mark of loops** opens a loop. -/
theorem classify_loopOpen :
    classify standardSymbols (head ++ (gap ++ ['@'])) = .item (.loopOpen head) := by
  have hmask := mask_head hhead hgap (m := '@') rfl
  have hmatch := match_openPattern (m := '@') rfl hhead.solid_mask (hhead.free rfl) hgap
  rw [← List.append_assoc, ← hmask] at hmatch
  simp only [length_mask] at hmatch
  refine (hhead.classify_eq [.inlineLoop, .inlineFunction, .inlineIf, .loopClose] rfl ?_ hmask
    (by decide) rfl hmatch).trans ?_
  · rw [hmask]
    simp only [List.forall_mem_cons, List.not_mem_nil, IsEmpty.forall_iff, implies_true, and_true]
    refine ⟨matchRule?_of_not_way (not_way_inlinePattern (not_mem_head hhead hgap rfl) _),
      matchRule?_of_last (m := '#') rfl (by decide) (by decide),
      matchRule?_of_last (m := '?') rfl (by decide) (by decide),
      matchRule?_of_not_way (not_way_of_mark hhead rfl mark_of_text)⟩
  change Form.item (.loopOpen (slice (head ++ (gap ++ ['@'])) 0 head.length)) = _
  rw [slice_front]

/-- **A head in front of the mark of conditionals** opens a conditional. -/
theorem classify_ifOpen :
    classify standardSymbols (head ++ (gap ++ ['?'])) = .item (.ifOpen head) := by
  have hmask := mask_head hhead hgap (m := '?') rfl
  have hmatch := match_openPattern (m := '?') rfl hhead.solid_mask (hhead.free rfl) hgap
  rw [← List.append_assoc, ← hmask] at hmatch
  simp only [length_mask] at hmatch
  have hloop : '@' ≠ '?' := by decide
  have hfunction : '#' ≠ '?' := by decide
  have hnot : ∀ {p : Pattern}, (∀ c c', p.Way c c' → ['?'] <+: c.rest) →
      ∀ c, ¬ p.Way ⟨0, mask head ++ gap ++ ['?'], []⟩ c := not_way_of_mark hhead rfl
  refine (hhead.classify_eq [.inlineLoop, .inlineFunction, .inlineIf, .loopClose, .loopOpen,
    .functionClose, .functionOpen, .otherwise, .ifClose, .elseIf] rfl ?_ hmask (by decide) rfl
    hmatch).trans ?_
  · rw [hmask]
    simp only [List.forall_mem_cons, List.not_mem_nil, IsEmpty.forall_iff, implies_true, and_true]
    refine ⟨matchRule?_of_last rfl (by decide) hloop, matchRule?_of_last rfl (by decide) hfunction,
      matchRule?_of_not_way (not_way_inlineIfPattern (not_mem_head hhead hgap rfl)),
      matchRule?_of_last rfl (by decide) hloop, matchRule?_of_last rfl (by decide) hloop,
      matchRule?_of_last rfl (by decide) hfunction, matchRule?_of_last rfl (by decide) hfunction,
      matchRule?_of_not_way (hnot mark_of_text), matchRule?_of_not_way (hnot mark_of_text),
      matchRule?_of_not_way (hnot mark_of_text)⟩
  change Form.item (.ifOpen (slice (head ++ (gap ++ ['?'])) 0 head.length)) = _
  rw [slice_front]

end Heads

end LineScript
