import LineScript.Proofs.LeafReading
import LineScript.Proofs.StatementCuts

/-!
# String literals

A string literal stands between two quotes of one kind, and the quote itself stands between them only
behind a backslash.  The reader of strings takes just such texts, so none of them is the front of
another one.  The printer writes every text as a literal, and what is read of it is the text again.

## Main definitions

* `IsLiteral` — string literals.
* `replaced` — a text in which one character is replaced.

## Main results

* `IsLiteral.eq_of_front` — no literal is the front of another one.
* `readExpression_literal` — **a literal is read as one string**, with most symbols.
* `printed_text_reads` — **printed texts are literals that are read as the text.**
-/

namespace LineScript

/-! ### Literals -/

/-- A string literal in quotes of either kind. -/
def IsLiteral (s : List Char) : Prop :=
  ∃ q body, isQuote q = true ∧ StringBody q body ∧ s = q :: (body ++ [q])

variable {q : Char} {body : List Char}

/-- **No literal is the front of another one.** -/
theorem IsLiteral.eq_of_front {s p : List Char} (hs : IsLiteral s) (hp : IsLiteral p)
    (hfront : p <+: s) : p = s := by
  obtain ⟨q, body, hq, hbody, rfl⟩ := hs
  obtain ⟨q', body', -, hbody', rfl⟩ := hp
  obtain ⟨more, hmore⟩ := hfront
  rw [List.cons_append, List.append_assoc, List.singleton_append] at hmore
  obtain ⟨rfl, hmore⟩ := List.cons.inj hmore
  -- the reader finds one body only, and nothing behind its quote
  have hslash : q' ≠ '\\' := ne_backslash_of_isQuote hq
  have hread := (readString_eq_some_iff hslash).2 ⟨hmore.symm, hbody'⟩
  rw [(readString_eq_some_iff hslash).2 ⟨rfl, hbody⟩] at hread
  cases hread
  rfl

/-! ### Expressions -/

/-- Symbols with which literals are read as strings: there are words for truth values, and the change
of sign does not begin like a literal. -/
structure Symbols.ReadsLiterals (s : Symbols) : Prop where
  words : ∃ words, s.booleans = .ok words
  minus : ∃ c rest, (s.arithmetic.symbolText "subtract").toList = c :: rest ∧ isQuote c = false

theorem readsLiterals_standard : standardSymbols.ReadsLiterals :=
  ⟨⟨_, rfl⟩, _, _, rfl, rfl⟩

/-- A literal is a primary term. -/
theorem readPrimary_literal (g : Grammar) (inner : Reader Term) (hq : isQuote q = true)
    (hbody : StringBody q body) :
    readPrimary g inner (q :: (body ++ [q])) = some (.string body, []) := by
  have hread : readString q (body ++ [q]) = some (body, []) :=
    (readString_eq_some_iff (ne_backslash_of_isQuote hq)).2 ⟨rfl, hbody⟩
  obtain rfl | rfl : q = '"' ∨ q = '\'' := by simpa [isQuote] using hq
  all_goals
    show ((readStringTerm _).orElse _) = _
    rw [readStringTerm, hread]
    rfl

/-- Nothing stands behind a literal that is all of a text, so no operator is looked for. -/
theorem readTerm_literal {g : Grammar} (hminus : ∃ c rest, g.minus = c :: rest ∧ isQuote c = false)
    (hq : isQuote q = true) (hbody : StringBody q body) (n : Nat) :
    readTerm g (n + 1) (q :: (body ++ [q])) = some (.string body, []) := by
  have hsign : Symbols.afterMark? g.minus (q :: (body ++ [q])) = none := by
    obtain ⟨c, rest, hsymbol, hc⟩ := hminus
    rw [Option.eq_none_iff_forall_ne_some]
    intro r hr
    rw [afterMark?_eq_some, hsymbol, List.cons_append] at hr
    rw [(List.cons.inj hr).1, hc] at hq
    cases hq
  have hunary : readUnary g (readTerm g n) (q :: (body ++ [q])).length (q :: (body ++ [q])) =
      some (.string body, []) := by
    rw [List.length_cons, readUnary, hsign]
    exact readPrimary_literal g _ hq hbody
  simp only [readTerm, readLevel, hunary, Option.map_some, List.length_nil, readChain]

/-- **A literal is read as one string**, the one that its body stands for. -/
theorem readExpression_literal {symbols : Symbols} (hsymbols : symbols.ReadsLiterals)
    (hq : isQuote q = true) (hbody : StringBody q body) (line : SourceLine) :
    readExpression symbols line (q :: (body ++ [q])) =
      .ok (.literal line (.string (String.ofList (unescape body)))) := by
  have hblank : isBlank q = false := by
    obtain rfl | rfl : q = '"' ∨ q = '\'' := by simpa [isQuote] using hq
    all_goals rfl
  have hstrip := (solid_between hblank hblank body).strip_eq
  obtain ⟨⟨yes, no⟩, hwords⟩ := hsymbols.words
  have hterm : Term.read (symbols.grammar (yes, no)) (q :: (body ++ [q])) = .ok (.string body) := by
    rw [Term.read, readTerm_literal hsymbols.minus hq hbody]
  simp only [readExpression, hstrip, List.isEmpty_cons, hwords, hterm]
  rfl

/-! ### Printed texts -/

/-- A text in which one character is replaced, wherever it stands. -/
def replaced (c : Char) (escape : List Char) (s : List Char) : List Char :=
  s.flatMap fun d => if d = c then escape else [d]

/-- The four characters with an escape may be replaced one after the other, the backslash first: the
later replacements bring backslashes of their own, which must not be replaced again. -/
theorem flatMap_printChar (s : List Char) :
    s.flatMap printChar = replaced '\t' ['\\', 't'] (replaced '\n' ['\\', 'n']
      (replaced '"' ['\\', '"'] (replaced '\\' ['\\', '\\'] s))) := by
  simp only [replaced, List.flatMap_assoc]
  refine congrArg (s.flatMap ·) (funext fun c => ?_)
  unfold printChar
  split
  case h_5 hslash hquote hline htab =>
    rw [if_neg hslash, List.flatMap_singleton, if_neg hquote, List.flatMap_singleton, if_neg hline,
      List.flatMap_singleton, if_neg htab]
  all_goals rfl

/-- **Printed texts are literals that are read as the text.**  Whatever characters a text has, it is
printed as one literal: between quotes, with its backslashes, quotes, line feeds and tabs replaced in
this order.  No literal is a proper front of it, and read as an expression it is one string, the text
itself, with the standard symbols and with others. -/
theorem printed_text_reads (s : String) (view : HostView) (line : SourceLine) :
    ∃ text, printHost standardSymbols view (.text s) = .ok text ∧
      text.toList = '"' :: (replaced '\t' ['\\', 't'] (replaced '\n' ['\\', 'n']
        (replaced '"' ['\\', '"'] (replaced '\\' ['\\', '\\'] s.toList))) ++ ['"']) ∧
      IsLiteral text.toList ∧
      (∀ front, front <+: text.toList → IsLiteral front → front = text.toList) ∧
      readExpression standardSymbols line text.toList = .ok (.literal line (.string s)) ∧
      ∀ symbols : Symbols, symbols.ReadsLiterals →
        printHost symbols view (.text s) = .ok text ∧
        readExpression symbols line text.toList = .ok (.literal line (.string s)) := by
  have hliteral : IsLiteral (printText s).toList :=
    ⟨'"', s.toList.flatMap printChar, rfl, stringBody_print _, toList_printText s⟩
  have hread : ∀ symbols : Symbols, symbols.ReadsLiterals →
      readExpression symbols line (printText s).toList = .ok (.literal line (.string s)) := by
    intro symbols hsymbols
    rw [toList_printText, readExpression_literal hsymbols rfl (stringBody_print _), unescape_print,
      String.ofList_toList]
  refine ⟨printText s, rfl, ?_, hliteral, fun front hfront hf => hliteral.eq_of_front hf hfront,
    hread _ readsLiterals_standard, fun symbols hsymbols => ⟨rfl, hread symbols hsymbols⟩⟩
  rw [toList_printText, flatMap_printChar]

/-- Backslashes next to quotes, to an `n` and at the end, read with a quote as the sign of the missing
value. -/
theorem printed_escapes_read :
    ∃ text, printHost standardSymbols default (.text "\\\"\n\\n\t'\\") = .ok text ∧
      IsLiteral text.toList ∧ ¬ IsLiteral text.toList.dropLast ∧
      Symbols.ReadsLiterals { standardSymbols with null := "\"" } ∧
      readExpression { standardSymbols with null := "\"" } default text.toList =
        .ok (.literal default (.string "\\\"\n\\n\t'\\")) := by
  have hnull : Symbols.ReadsLiterals { standardSymbols with null := "\"" } :=
    ⟨readsLiterals_standard.words, readsLiterals_standard.minus⟩
  obtain ⟨text, hprint, htext, hliteral, hfront, -, hread⟩ :=
    printed_text_reads "\\\"\n\\n\t'\\" default default
  refine ⟨text, hprint, hliteral, fun h => ?_, hnull, (hread _ hnull).2⟩
  have hlength := congrArg List.length (hfront _ (List.dropLast_prefix _) h)
  rw [List.length_dropLast, htext] at hlength
  exact absurd hlength (by simp)

end LineScript
