import LineScript.Proofs.StatementCuts

/-!
# What the mask blanks

The mask goes through a text character by character, and the grammar has a rule for string literals.
Both describe the same literals.  In any text the mask keeps what stands outside literals, and the
quotes around them, and blanks the rest.  In a text that is made up of literals by the rule and of
text without quotes, with or without a literal at the end that has no end, it blanks just what
stands between the quotes.

## Main definitions

* `Spared` — offsets outside literals, and those of the quotes around them.
* `Stretch` — texts without quotes and literals, as the grammar has them.
* `Dangling` — literals without an end.

## Main results

* `getElem?_mask` — **the mask blanks what stands strictly inside literals**, in every text.
* `mask_stretches` — stretches are masked one by one.
* `mask_blanks_literals` — **the mask agrees with the string rule.**
-/

namespace LineScript

/-! ### Every text -/

/-- The character at an offset stands outside literals or is one of the quotes around one: no
literal is open in front of it, or none is open behind it. -/
def Spared (s : List Char) (i : Nat) : Prop :=
  WholeLiterals (s.take i) ∨ WholeLiterals (s.take (i + 1))

theorem maskChar_eq (q : Quoting) (c : Char) :
    (q = .outside ∨ q.next c = .outside → q.maskChar c = c) ∧
      (q ≠ .outside → q.next c ≠ .outside → q.maskChar c = '_') := by
  rcases q.step_cases c with rfl | ⟨hmask, hsame⟩ | ⟨-, hout, hmask⟩
  · exact ⟨fun _ => rfl, fun h => absurd rfl h⟩
  · refine ⟨fun hout => ?_, fun _ _ => hmask⟩
    have hquote : q.quote? = none := hout.elim (fun h => h ▸ rfl) fun h => hsame ▸ h ▸ rfl
    cases q <;> first | rfl | cases hquote
  · exact ⟨fun _ => hmask, fun _ hne => absurd hout hne⟩

theorem getElem?_maskFrom (q : Quoting) (s : List Char) (i : Nat) :
    (maskFrom q s)[i]? = s[i]?.map (q.after (s.take i)).maskChar := by
  induction s generalizing q i with
  | nil => rfl
  | cons c s ih =>
    cases i with
    | zero => rfl
    | succ i => exact ih (q.next c) i

/-- **The mask blanks what stands strictly inside literals**, and keeps all else. -/
theorem getElem?_mask {s : List Char} {i : Nat} {c : Char} (h : s[i]? = some c) :
    (Spared s i → (mask s)[i]? = some c) ∧ (¬ Spared s i → (mask s)[i]? = some '_') := by
  have hmask : (mask s)[i]? = some ((Quoting.outside.after (s.take i)).maskChar c) := by
    rw [mask, getElem?_maskFrom, h, Option.map_some]
  have hnext : Quoting.outside.after (s.take (i + 1)) = (Quoting.outside.after (s.take i)).next c := by
    rw [List.take_add_one, h, Quoting.after_append]
    rfl
  unfold Spared
  rw [wholeLiterals_iff_closed, wholeLiterals_iff_closed, Closed, Closed, hnext, hmask, not_or,
    Option.some_inj, Option.some_inj, and_imp]
  exact maskChar_eq _ c

/-- The state of the mask in a masked text, in which nothing is behind a backslash. -/
def Quoting.unescaped (q : Quoting) : Quoting := q.quote?.elim .outside .inside

/-- A masked character stands where the character did, and is masked already. -/
theorem maskChar_unescaped {q : Quoting} (h : q.Proper) (c : Char) :
    q.unescaped.maskChar (q.maskChar c) = q.maskChar c ∧
      q.unescaped.next (q.maskChar c) = (q.next c).unescaped := by
  unfold Quoting.unescaped
  rcases q.step_cases c with rfl | ⟨hmask, hsame⟩ | ⟨hquote, hout, hmask⟩
  · by_cases hc : isQuote c <;> simp [Quoting.next, Quoting.maskChar, Quoting.quote?, hc]
  · rw [hsame, hmask]
    cases hquote : q.quote? with
    | none => exact ⟨rfl, rfl⟩
    | some quote => rcases eq_or_eq_of_isQuote (h quote hquote) with rfl | rfl <;> exact ⟨rfl, rfl⟩
  · have hescape := ne_backslash_of_isQuote (h c hquote)
    rw [hquote, hout, hmask]
    simp [Quoting.next, Quoting.maskChar, Quoting.quote?, hescape]

/-- **A text that is masked is masked already.** -/
theorem mask_mask (s : List Char) : mask (mask s) = mask s := by
  have hfrom : ∀ {q : Quoting}, q.Proper → maskFrom q.unescaped (maskFrom q s) = maskFrom q s := by
    induction s with
    | nil => exact fun _ => rfl
    | cons c s ih =>
      intro q hq
      obtain ⟨hchar, hnext⟩ := maskChar_unescaped hq c
      rw [maskFrom_cons, maskFrom_cons, hchar, hnext, ih (hq.next c)]
  exact hfrom Quoting.proper_outside

/-! ### Literals by the rule -/

/-- A part of a text: text without quotes, or a literal by its quote and what stands between. -/
inductive Stretch where
  | plain (s : List Char)
  | literal (q : Char) (body : List Char)

namespace Stretch

/-- The text of a stretch. -/
def text : Stretch → List Char
  | plain s => s
  | literal q body => q :: (body ++ [q])

/-- The stretch with what stands between quotes blanked. -/
def blanked : Stretch → List Char
  | plain s => s
  | literal q body => q :: (List.replicate body.length '_' ++ [q])

/-- A text has no quotes in it, and a literal is read in full by the rule for strings. -/
def Fits : Stretch → Prop
  | plain s => QuoteFree s
  | literal q body => readStringTerm (q :: (body ++ [q])) = some (.string body, [])

/-- A stretch has its end, and the mask blanks what stands between its quotes. -/
theorem closed_and_mask {p : Stretch} (h : p.Fits) : Closed p.text ∧ mask p.text = p.blanked := by
  cases p with
  | plain s => exact ⟨closed_of_quoteFree h, mask_of_quoteFree h⟩
  | literal q body =>
    obtain ⟨_, _, hq, ⟨⟩, heq, hbody⟩ := exists_of_readStringTerm h
    cases heq
    obtain ⟨hmask, hafter⟩ := hbody.literalBody.behind hq []
    have hopen : Quoting.outside.next q = .inside q := if_pos hq
    rw [Closed, text, Quoting.after_cons, mask, maskFrom_cons, hopen, hmask, hafter]
    exact ⟨rfl, rfl⟩

end Stretch

/-- What may stand behind whole stretches: nothing, or a literal without an end.  A backslash may be
the last thing in it. -/
inductive Dangling : List Char → Prop where
  | nil : Dangling []
  | literal {q : Char} {s : List Char} : isQuote q = true →
      (∃ body, LiteralBody q body ∧ (s = body ∨ s = body ++ ['\\'])) → Dangling (q :: s)

theorem Dangling.mask_eq {rest : List Char} (h : Dangling rest) :
    mask rest = rest.take 1 ++ List.replicate (rest.length - 1) '_' := by
  cases h with
  | nil => rfl
  | @literal q s hq hs =>
    rw [mask, maskFrom_cons, show Quoting.outside.next q = .inside q from if_pos hq,
      (unclosed_of_literalBody hs).1]
    rfl

/-- Stretches are masked one by one, and so is what stands behind them. -/
theorem mask_stretches {ps : List Stretch} (h : ∀ p ∈ ps, p.Fits) (rest : List Char) :
    mask (ps.flatMap Stretch.text ++ rest) = ps.flatMap (fun p => mask p.text) ++ mask rest := by
  induction ps with
  | nil => rfl
  | cons p ps ih =>
    obtain ⟨hp, hps⟩ := List.forall_mem_cons.1 h
    rw [List.flatMap_cons, List.flatMap_cons, List.append_assoc,
      mask_append (Stretch.closed_and_mask hp).1, ih hps, List.append_assoc]

/-- **The mask agrees with the rule for strings.**  In every text it keeps the length, what stands
outside literals and the quotes around them, blanks what stands strictly inside, and changes nothing
more when it is used again.  In a text that is made up of stretches without quotes and of literals
that the rule reads in full, with or without a literal at the end that has no end, it blanks just
what stands between quotes, and the stretches are masked one by one. -/
theorem mask_blanks_literals :
    (∀ s : List Char, (mask s).length = s.length ∧ mask (mask s) = mask s ∧
      ∀ i c, s[i]? = some c →
        (Spared s i → (mask s)[i]? = some c) ∧ (¬ Spared s i → (mask s)[i]? = some '_')) ∧
    ∀ (ps : List Stretch) (rest : List Char), (∀ p ∈ ps, p.Fits) → Dangling rest →
      mask (ps.flatMap Stretch.text ++ rest) =
          ps.flatMap Stretch.blanked ++ (rest.take 1 ++ List.replicate (rest.length - 1) '_') ∧
        mask (ps.flatMap Stretch.text ++ rest) =
          ps.flatMap (fun p => mask p.text) ++ mask rest := by
  refine ⟨fun s => ⟨length_mask s, mask_mask s, fun i c => getElem?_mask⟩, ?_⟩
  intro ps rest hps hrest
  have hmask := mask_stretches hps rest
  refine ⟨?_, hmask⟩
  rw [hmask, hrest.mask_eq]
  exact congrArg (· ++ _) (List.flatMap_congr fun p hp => (Stretch.closed_and_mask (hps p hp)).2)

/-- Escaped quotes, the other kind of quotes, and a literal that ends in a backslash. -/
theorem mask_blanks_say :
    let ps : List Stretch := [.plain "say ".toList, .literal '"' "a\\\"b\\\\".toList,
      .plain " or ".toList, .literal '\'' "it\"s".toList]
    let rest := "\"open\\".toList
    (∀ p ∈ ps, p.Fits) ∧ Dangling rest ∧
      mask (ps.flatMap Stretch.text ++ rest) = "say \"______\" or '____'\"_____".toList := by
  intro ps rest
  have hplain : ∀ s : List Char, s.all (fun c => !isQuote c) = true → QuoteFree s :=
    fun s hs c hc => by simpa using List.all_eq_true.1 hs c hc
  have hps : ∀ p ∈ ps, p.Fits := by
    simp only [ps, List.forall_mem_cons]
    exact ⟨hplain _ rfl, rfl, hplain _ rfl, rfl, by simp⟩
  have hopen : LiteralBody '"' "open".toList := by
    repeat' first | exact .nil | refine .char (by decide) (by decide) ?_
  have hrest : Dangling rest := .literal rfl ⟨_, hopen, .inr rfl⟩
  refine ⟨hps, hrest, (mask_blanks_literals.2 ps rest hps hrest).1.trans ?_⟩
  decide

end LineScript
