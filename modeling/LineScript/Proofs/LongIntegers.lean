import LineScript.Proofs.OneExpression
import LineScript.Proofs.TextReading

/-!
# Integers that are too long

An integer literal of more digits than can be converted is an expression for the reader, and no rule
for statements recognises a text of digits.  So a text that is such an integer is neither a script
nor rejected as not well formed: reading it fails with the failure of the conversion.

## Main definitions

* `asciiDigits` — the ten digits.

## Main results

* `undemanded_asciiDigits` — no rule for statements recognises a text of digits.
* `readExpression_long_integer` — an integer that is too long is read, and then fails.
* `parse_long_integer` — **a text that is too long an integer fails as its conversion does.**
-/

namespace LineScript

/-- The ten digits. -/
def asciiDigits : List Char := ['0', '1', '2', '3', '4', '5', '6', '7', '8', '9']

/-! ### Texts of digits -/

section Digits

variable {ds : List Char}

theorem undemanded_asciiDigits : Undemanded asciiDigits := by
  intro r
  cases r <;> rfl

theorem quoteFree_digits (h : ∀ c ∈ ds, c ∈ asciiDigits) : QuoteFree ds := fun c hc => by
  have hall : (asciiDigits.all fun c => !isQuote c) = true := by decide
  simpa using List.all_eq_true.1 hall c (h c hc)

theorem strip_of_no_blank {s : List Char} (hs : ∀ c ∈ s, isBlank c = false) : strip s = s := by
  by_cases hnil : s = []
  · rw [hnil, strip_nil]
  · exact (solid_of_forall hnil hs).strip_eq

theorem eq_false_of_digit {p : Char → Bool} (hp : (asciiDigits.all fun c => !p c) = true)
    (h : ∀ c ∈ ds, c ∈ asciiDigits) : ∀ c ∈ ds, p c = false := fun c hc => by
  simpa using List.all_eq_true.1 hp c (h c hc)

theorem strip_digits (h : ∀ c ∈ ds, c ∈ asciiDigits) : strip ds = ds :=
  strip_of_no_blank (eq_false_of_digit (by decide) h)

/-- An integer that is too long is read, and fails as its conversion does. -/
theorem readExpression_long_integer (h : ∀ c ∈ ds, c ∈ asciiDigits) (hlong : digitLimit < ds.length)
    (line : SourceLine) :
    readExpression standardSymbols line ds = .error (.fault (tooManyDigits ds.length)) := by
  have hne : ds ≠ [] := by
    rintro rfl
    cases hlong
  have hdigits : Digits ds := ⟨hne, fun c hc => by
    have hall : asciiDigits.all isDigit = true := by decide
    exact List.all_eq_true.1 hall c (h c hc)⟩
  have hread : Reads (.number ds) ds 6 := by
    obtain ⟨c, r, rfl⟩ := List.exists_cons_of_ne_nil hne
    have hc := hdigits.digit c List.mem_cons_self
    have hprimary : Reads (.number (c :: r)) (c :: r) 0 :=
      .number ⟨c, r, rfl, hc⟩ fun rest hrest => readNumber_whole hdigits hrest
    exact hprimary.loosen_le (Nat.zero_le 6) hne fun _ => ne_of_isDigit (by decide) hc
  have hnumber : Literal.ofNumber ds = .error (tooManyDigits ds.length) := by
    rw [Literal.ofNumber_digits hdigits.digit, if_pos hlong]
  rw [readExpression_of_reads hread (strip_digits h) hne, Term.lower, hnumber]
  rfl

/-- **A text that is too long an integer fails as its conversion does:** it is no script, and it is
not rejected as not well formed. -/
theorem parse_long_integer {τ : Type} (load : Loader τ) (base origin : Option String) (t : τ)
    (h : ∀ c ∈ ds, c ∈ asciiDigits) (hlong : digitLimit < ds.length) :
    (parse standardSymbols load base origin (String.ofList ds) t).1 =
      .error (.fault (tooManyDigits ds.length)) := by
  obtain ⟨c, s, rfl⟩ : ∃ c s, ds = c :: s := by
    refine List.exists_cons_of_ne_nil ?_
    rintro rfl
    cases hlong
  have hlines : splitLines (c :: s) = [c :: s] :=
    splitLines_of_no_break (eq_false_of_digit (by decide) h) (List.cons_ne_nil c s)
  refine parse_of_unread undemanded_asciiDigits (by decide) hlines ?_ ?_ ?_ ?_ load base t
  · rwa [mask_of_quoteFree (quoteFree_digits h)]
  · exact eq_false_of_digit (by decide) h c List.mem_cons_self
  · rintro rfl
    exact absurd (h _ List.mem_cons_self) (by decide)
  · rw [strip_digits h]
    exact readExpression_long_integer h hlong _

end Digits

/-- An integer of one digit more than can be converted. -/
theorem parse_integer_past_limit :
    (parse standardSymbols shelf none none
      (String.ofList (List.replicate (digitLimit + 1) '1')) ()).1 =
        .error (.fault (tooManyDigits (digitLimit + 1))) := by
  have hdigits : ∀ c ∈ List.replicate (digitLimit + 1) '1', c ∈ asciiDigits := fun c hc => by
    rw [(List.mem_replicate.1 hc).2]
    decide
  have h := parse_long_integer shelf none none () hdigits (by rw [List.length_replicate]; decide)
  rwa [List.length_replicate] at h

end LineScript
