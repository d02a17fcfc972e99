import LineScript.Proofs.Expansion
import LineScript.Proofs.Masking

/-!
# Where a line is cut into statements

A line is cut at the separators outside its string literals.  They are looked for in the masked form
of the line, and the cuts are made in the line itself.  A separator that has neither a quote nor an
underscore shows in the masked form exactly where it stands outside literals, so the two agree; and
behind a separator no literal is open, so what is left of the line is cut as a line of its own.

## Main definitions

* `WholeLiterals` — texts in which every literal has its end, told without the mask.
* `StandsAt` — a separator stands at an offset of a line, outside literals.
* `Leftmost` — offsets taken from left to right, without overlaps.
* `cutsFrom` — the offsets at which parts of a text end.

## Main results

* `wholeLiterals_iff_closed` — the two ways to say that no literal is open agree.
* `prefix_mask_drop_iff` — the masked form shows a separator where it stands outside literals.
* `splitStatements_step` — the first cut of a line.
* `splitStatements_mask` — texts with the same masked form are cut at the same offsets.
* `joinWith_splitStatements` — the statements of a line are the line again.
* `statements_cut_exactly` — **a line is cut at the leftmost separators outside literals**, nothing
  of it is lost, and its statements are not cut again.
-/

namespace LineScript

/-! ### Whole literals -/

/-- A text that is made up of whole literals and of characters that are no quotes. -/
inductive WholeLiterals : List Char → Prop where
  | nil : WholeLiterals []
  | char {c : Char} {s : List Char} : isQuote c = false → WholeLiterals s → WholeLiterals (c :: s)
  | literal {q : Char} {body s : List Char} : isQuote q = true → LiteralBody q body →
      WholeLiterals s → WholeLiterals (q :: (body ++ q :: s))

theorem WholeLiterals.closed {s : List Char} (h : WholeLiterals s) : Closed s := by
  unfold Closed
  induction h with
  | nil => rfl
  | char hc _ ih => simpa [Quoting.next, hc] using ih
  | literal hq hbody _ ih =>
    rw [Quoting.after_cons]
    simpa [Quoting.next, hq] using (hbody.behind hq _).2.trans ih

theorem wholeLiterals_of_closed {s : List Char} (h : Closed s) : WholeLiterals s := by
  induction hn : s.length using Nat.strongRecOn generalizing s with
  | ind n ih =>
  subst hn
  cases s with
  | nil => exact .nil
  | cons c s =>
    cases hc : isQuote c with
    | false =>
      have hs : Closed s := by simpa [Closed, Quoting.next, hc] using h
      exact .char hc (ih s.length (Nat.lt_succ_self _) hs rfl)
    | true =>
      have hs : (Quoting.inside c).after s = .outside := by
        simpa [Closed, Quoting.next, hc] using h
      rcases literalBody_cases c s with ⟨body, rest, rfl, hbody⟩ | hopen
      swap
      · exact absurd hs (unclosed_of_literalBody hopen).2
      have hrest : Closed rest := (hbody.behind hc rest).2.symm.trans hs
      have hlt : rest.length < (c :: (body ++ c :: rest)).length := by
        simp only [List.length_cons, List.length_append]
        omega
      exact .literal hc hbody (ih rest.length hlt hrest rfl)

theorem wholeLiterals_iff_closed {s : List Char} : WholeLiterals s ↔ Closed s :=
  ⟨WholeLiterals.closed, wholeLiterals_of_closed⟩

/-! ### Where separators stand -/

/-- The separator stands at an offset of a line, outside literals: what is before it is made up of
whole literals and characters around them. -/
def StandsAt (sep line : List Char) (i : Nat) : Prop :=
  WholeLiterals (line.take i) ∧ sep <+: line.drop i

/-- Behind a text in which no literal is open a separator stands outside literals. -/
theorem standsAt_length {sep part : List Char} (hpart : Closed part) (rest : List Char) :
    StandsAt sep (part ++ (sep ++ rest)) part.length := by
  refine ⟨?_, ?_⟩
  · rw [List.take_left]
    exact wholeLiterals_of_closed hpart
  · rw [List.drop_left]
    exact List.prefix_append sep rest

theorem length_behind_lt {sep : List Char} (hne : sep ≠ []) (part rest : List Char) :
    rest.length < (part ++ (sep ++ rest)).length := by
  have := List.length_pos_iff.2 hne
  simp only [List.length_append]
  omega

section Cuts

variable {sep : List Char} (hsep : PlainText sep) (hne : sep ≠ [])

include hsep hne

/-- **The masked form shows a separator where it stands outside literals**, and nowhere else. -/
theorem prefix_mask_drop_iff {line : List Char} {i : Nat} :
    sep <+: (mask line).drop i ↔ StandsAt sep line i := by
  unfold StandsAt
  rw [wholeLiterals_iff_closed]
  constructor
  · rintro ⟨post, hpost⟩
    have hi : i ≤ line.length := by
      by_contra hlt
      rw [List.drop_of_length_le (by rw [length_mask]; omega)] at hpost
      exact hne (List.append_eq_nil_iff.1 hpost).1
    rw [← maskFrom_drop line hi] at hpost
    obtain ⟨hout, rest, hrest, -⟩ := eq_append_of_maskFrom
      (Quoting.proper_outside.after (line.take i)) hsep hne hpost.symm
    exact ⟨hout, rest, hrest.symm⟩
  · rintro ⟨hclosed, hfits⟩
    rw [← mask_drop hclosed, ← List.isPrefixOf_iff_prefix, isPrefixOf_mask hsep.quoteFree,
      List.isPrefixOf_iff_prefix]
    exact hfits

/-- Cutting goes on to the first separator that the masked form shows, or to the end. -/
theorem splitFrom_step : ∀ (cs : List Char) (part : List Char) {q : Quoting}, q.Proper →
    (splitFrom sep part 0 (maskFrom q cs) cs = [part.reverse ++ cs] ∧
        ∀ i, ¬ sep <+: (maskFrom q cs).drop i) ∨
      ∃ front rest, cs = front ++ (sep ++ rest) ∧ q.after front = .outside ∧
        (∀ i < front.length, ¬ sep <+: (maskFrom q cs).drop i) ∧
        splitFrom sep part 0 (maskFrom q cs) cs =
          (part.reverse ++ front) :: splitStatements sep rest := by
  intro cs
  induction cs with
  | nil =>
    intro part q _
    refine .inl ⟨by rw [splitFrom, List.append_nil], fun i hfits => hne ?_⟩
    simpa using hfits
  | cons c cs ih =>
    intro part q hq
    by_cases hfits : sep <+: maskFrom q (c :: cs)
    · obtain ⟨post, hpost⟩ := hfits
      obtain ⟨rest, hrest, hmask, hsplit⟩ := splitFrom_sep hsep hne part hq hpost.symm
      have hout := (eq_append_of_maskFrom hq hsep hne hpost.symm).1
      refine .inr ⟨[], rest, hrest, hout, fun i hi => absurd hi (Nat.not_lt_zero i), ?_⟩
      rw [← hpost, hsplit, List.append_nil, ← hmask]
      rfl
    · have hgo : splitFrom sep part 0 (maskFrom q (c :: cs)) (c :: cs) =
          splitFrom sep (c :: part) 0 (maskFrom (q.next c) cs) cs := by
        rw [← List.isPrefixOf_iff_prefix, maskFrom_cons] at hfits
        rw [maskFrom_cons, splitFrom, if_neg hfits]
      rcases ih (c :: part) (hq.next c) with ⟨hsplit, hnone⟩ | ⟨front, rest, rfl, hout, hnone, hsplit⟩
      · refine .inl ⟨by rw [hgo, hsplit]; simp, fun i => ?_⟩
        cases i with
        | zero => exact hfits
        | succ i => exact hnone i
      · refine .inr ⟨c :: front, rest, rfl, hout, fun i hi => ?_, by rw [hgo, hsplit]; simp⟩
        cases i with
        | zero => exact hfits
        | succ i => exact hnone i (Nat.lt_of_succ_lt_succ hi)

/-- **The first cut of a line** is at the first separator outside literals, and what is behind it is
cut as a line of its own; without such a separator the line is one statement. -/
theorem splitStatements_step (line : List Char) :
    (splitStatements sep line = [line] ∧ ∀ i, ¬ StandsAt sep line i) ∨
      ∃ part rest, line = part ++ (sep ++ rest) ∧ Closed part ∧
        (∀ i < part.length, ¬ StandsAt sep line i) ∧
        splitStatements sep line = part :: splitStatements sep rest := by
  rcases splitFrom_step hsep hne line [] Quoting.proper_outside with
    ⟨hsplit, hnone⟩ | ⟨part, rest, hline, hout, hnone, hsplit⟩
  · exact .inl ⟨hsplit, fun i hi => hnone i ((prefix_mask_drop_iff hsep hne).2 hi)⟩
  · exact .inr ⟨part, rest, hline, hout,
      fun i hlt hi => hnone i hlt ((prefix_mask_drop_iff hsep hne).2 hi), hsplit⟩

omit hsep hne in
theorem splitStatements_ne_nil (line : List Char) : splitStatements sep line ≠ [] := by
  have h : ∀ (cs ms part : List Char) (skip : Nat), splitFrom sep part skip ms cs ≠ [] := by
    intro cs ms part skip
    fun_induction splitFrom sep part skip ms cs <;> simp_all
  exact h line (mask line) [] 0

/-- The statements of a line with the separator between them are the line again. -/
theorem joinWith_splitStatements (line : List Char) :
    joinWith sep (splitStatements sep line) = line := by
  induction hn : line.length using Nat.strongRecOn generalizing line with
  | ind n ih =>
  subst hn
  rcases splitStatements_step hsep hne line with ⟨hsplit, -⟩ | ⟨part, rest, rfl, -, -, hsplit⟩
  · rw [hsplit, joinWith]
  · obtain ⟨next, parts, hparts⟩ := List.exists_cons_of_ne_nil (splitStatements_ne_nil rest)
    have hjoin := ih rest.length (length_behind_lt hne part rest) rest rfl
    rw [hparts] at hjoin
    rw [hsplit, hparts, joinWith, hjoin, List.append_assoc]
    rintro ⟨⟩

/-- The statements of a line are made of its characters. -/
theorem mem_of_mem_splitStatements {line part : List Char} (hpart : part ∈ splitStatements sep line)
    {c : Char} (hc : c ∈ part) : c ∈ line := by
  have hjoin : ∀ {parts : List (List Char)}, part ∈ parts → c ∈ joinWith sep parts := by
    intro parts hmem
    induction parts with
    | nil => cases hmem
    | cons first parts ih =>
      cases parts with
      | nil => rwa [List.mem_singleton.1 hmem] at hc
      | cons next parts =>
        rw [joinWith, List.append_assoc, List.mem_append, List.mem_append]
        · rcases List.mem_cons.1 hmem with rfl | hmem
          · exact .inl hc
          · exact .inr (.inr (ih hmem))
        · rintro ⟨⟩
  rw [← joinWith_splitStatements hsep hne line]
  exact hjoin hpart

/-- A statement of a line is not cut again. -/
theorem splitStatements_of_mem {line part : List Char} (hpart : part ∈ splitStatements sep line) :
    splitStatements sep part = [part] := by
  induction hn : line.length using Nat.strongRecOn generalizing line with
  | ind n ih =>
  subst hn
  rcases splitStatements_step hsep hne line with ⟨hsplit, -⟩ | ⟨first, rest, rfl, -, hfirst, hsplit⟩
  · rw [hsplit, List.mem_singleton] at hpart
    rw [hpart, hsplit]
  rw [hsplit] at hpart
  rcases List.mem_cons.1 hpart with rfl | hpart
  · -- a separator inside the first statement would stand in the line before the first cut
    rcases splitStatements_step hsep hne part with ⟨hpart, -⟩ | ⟨front, back, heq, hfront, -, -⟩
    · exact hpart
    have hlt : front.length < part.length := by
      have := List.length_pos_iff.2 hne
      rw [heq]
      simp only [List.length_append]
      omega
    refine absurd ?_ (hfirst front.length hlt)
    rw [heq, List.append_assoc, List.append_assoc]
    exact standsAt_length hfront _
  · exact ih rest.length (length_behind_lt hne first rest) hpart rfl

/-- **Texts with the same masked form are cut into statements at the same offsets:** the statements
have the same masked forms too. -/
theorem splitStatements_mask {a b : List Char} (h : mask a = mask b) :
    List.Forall₂ (fun x y => mask x = mask y) (splitStatements sep a) (splitStatements sep b) := by
  induction hn : a.length using Nat.strongRecOn generalizing a b with
  | ind n ih =>
  subst hn
  have hstands : ∀ i, StandsAt sep a i ↔ StandsAt sep b i := fun i => by
    rw [← prefix_mask_drop_iff hsep hne, h, prefix_mask_drop_iff hsep hne]
  rcases splitStatements_step hsep hne a with
    ⟨ha, hnone⟩ | ⟨part, rest, rfl, hpart, hfirst, ha⟩ <;>
  rcases splitStatements_step hsep hne b with
    ⟨hb, hnone'⟩ | ⟨part', rest', rfl, hpart', hfirst', hb⟩
  · rw [ha, hb]
    exact .cons h .nil
  · exact absurd ((hstands _).2 (standsAt_length hpart' rest')) (hnone _)
  · exact absurd ((hstands _).1 (standsAt_length hpart rest)) (hnone' _)
  · -- the first separators stand at the same offset
    have hlength : part.length = part'.length := by
      refine Nat.le_antisymm (Nat.le_of_not_lt fun hlt => ?_) (Nat.le_of_not_lt fun hlt => ?_)
      · exact hfirst _ hlt ((hstands _).2 (standsAt_length hpart' rest'))
      · exact hfirst' _ hlt ((hstands _).1 (standsAt_length hpart rest))
    have hclosed := closed_of_quoteFree hsep.quoteFree
    rw [mask_append hpart, mask_append hpart', mask_append hclosed, mask_append hclosed] at h
    obtain ⟨hparts, hbehind⟩ := List.append_inj h (by rw [length_mask, length_mask, hlength])
    rw [ha, hb]
    exact .cons hparts (ih rest.length (length_behind_lt hne part rest) (List.append_cancel_left hbehind) rfl)

end Cuts

/-! ### Cuts from left to right -/

/-- Offsets taken from left to right: each one is the first from where the one before it ends at
which the property holds, and when the last one has ended it holds nowhere. -/
inductive Leftmost (P : Nat → Prop) (width : Nat) : Nat → List Nat → Prop where
  | done {start : Nat} : (∀ i, start ≤ i → ¬ P i) → Leftmost P width start []
  | next {start i : Nat} {later : List Nat} : start ≤ i → P i → (∀ j, start ≤ j → j < i → ¬ P j) →
      Leftmost P width (i + width) later → Leftmost P width start (i :: later)

/-- The offsets at which the parts of a text end, all but the last one, when the first part begins at
`start` and `width` characters stand between one part and the next. -/
def cutsFrom (width : Nat) : Nat → List (List Char) → List Nat
  | start, part :: next :: parts =>
    (start + part.length) :: cutsFrom width (start + part.length + width) (next :: parts)
  | _, _ => []

/-- Behind a text in which no literal is open, separators stand where they stand without it. -/
theorem standsAt_append {sep front : List Char} (hfront : Closed front) (rest : List Char) (i : Nat) :
    StandsAt sep (front ++ rest) (front.length + i) ↔ StandsAt sep rest i := by
  unfold StandsAt
  rw [wholeLiterals_iff_closed, wholeLiterals_iff_closed, List.take_length_add_append,
    List.drop_length_add_append, hfront.append_iff]

/-- The cuts of a line behind a text are the leftmost separators there. -/
theorem leftmost_cuts {sep : List Char} (hsep : PlainText sep) (hne : sep ≠ []) (rest : List Char) :
    ∀ {front : List Char}, Closed front →
      Leftmost (StandsAt sep (front ++ rest)) sep.length front.length
        (cutsFrom sep.length front.length (splitStatements sep rest)) := by
  induction hn : rest.length using Nat.strongRecOn generalizing rest with
  | ind n ih =>
  subst hn
  intro front hfront
  rcases splitStatements_step hsep hne rest with
    ⟨hsplit, hnone⟩ | ⟨part, rest, rfl, hpart, hnone, hsplit⟩
  · rw [hsplit, cutsFrom]
    · refine .done fun i hi hstands => ?_
      obtain ⟨j, rfl⟩ := Nat.exists_eq_add_of_le hi
      exact hnone j ((standsAt_append hfront _ j).1 hstands)
    · rintro _ _ _ ⟨⟩
  · have hsome : splitStatements sep rest ≠ [] := splitStatements_ne_nil rest
    obtain ⟨next, parts, hparts⟩ := List.exists_cons_of_ne_nil hsome
    have hbefore : Closed (front ++ (part ++ sep)) :=
      hfront.append_iff.2 (hpart.append_iff.2 (closed_of_quoteFree hsep.quoteFree))
    have hlater := ih rest.length (length_behind_lt hne part rest) rest rfl hbefore
    simp only [List.append_assoc, List.length_append, ← Nat.add_assoc] at hlater
    rw [hsplit, hparts, cutsFrom, ← hparts]
    refine .next (Nat.le_add_right _ _) ?_ (fun j hj hlt hstands => ?_) hlater
    · rw [standsAt_append hfront]
      exact standsAt_length hpart rest
    · obtain ⟨i, rfl⟩ := Nat.exists_eq_add_of_le hj
      exact hnone i (Nat.lt_of_add_lt_add_left hlt) ((standsAt_append hfront _ i).1 hstands)

/-- **A line is cut at the leftmost separators outside literals.**  For every table that is accepted
and whose separator has neither a quote nor an underscore, and for every line: the statements with
the separator between them are the line; the cuts are the separators outside literals, taken from
left to right without overlaps; and each statement, cut again, is one statement. -/
theorem statements_cut_exactly {t : Table} {s : Symbols} (hs : Symbols.ofTable t = .ok s)
    (hsep : ∀ c ∈ s.separator.toList, isQuote c = false ∧ c ≠ '_') (line : List Char) :
    joinWith s.separator.toList (splitStatements s.separator.toList line) = line ∧
      Leftmost (StandsAt s.separator.toList line) s.separator.toList.length 0
        (cutsFrom s.separator.toList.length 0 (splitStatements s.separator.toList line)) ∧
      ∀ part ∈ splitStatements s.separator.toList line,
        splitStatements s.separator.toList part = [part] := by
  have hne : s.separator.toList ≠ [] := by
    have hmark := Symbols.ne_empty_of_mem_marks hs s.separator
      (List.mem_cons_of_mem _ List.mem_cons_self)
    simpa using hmark
  have hplain : PlainText s.separator.toList := fun c hc => by
    simp [isPlain, hsep c hc]
  refine ⟨joinWith_splitStatements hplain hne line, ?_, fun part hpart => ?_⟩
  · have hcuts := leftmost_cuts hplain hne line closed_nil
    rwa [List.nil_append] at hcuts
  · exact splitStatements_of_mem hplain hne hpart

/-- A table whose separator overlaps with itself. -/
def colonTable : Table := Table.standard.put "statement_separator" (.text "::")

/-- A line with separators inside literals, one of them behind an escaped quote and one in a literal
without an end, and with three colons in a row. -/
def colonLine : String := "a = \"x::\\\"::y\":::b::'c::d"

/-- The line has three statements, of which the second begins with the third colon. -/
theorem statements_cut_colons :
    ∃ s, Symbols.ofTable colonTable = .ok s ∧
      splitStatements s.separator.toList colonLine.toList =
        ["a = \"x::\\\"::y\"", ":b", "'c::d"].map String.toList ∧
      joinWith s.separator.toList (splitStatements s.separator.toList colonLine.toList) =
        colonLine.toList ∧
      Leftmost (StandsAt s.separator.toList colonLine.toList) s.separator.toList.length 0
        (cutsFrom s.separator.toList.length 0
          (splitStatements s.separator.toList colonLine.toList)) ∧
      ∀ part ∈ splitStatements s.separator.toList colonLine.toList,
        splitStatements s.separator.toList part = [part] := by
  have hsep : ∀ c ∈ [':', ':'], isQuote c = false ∧ c ≠ '_' := by simp [isQuote]
  refine ⟨_, rfl, by decide, ?_⟩
  exact statements_cut_exactly (t := colonTable) rfl hsep _

end LineScript
