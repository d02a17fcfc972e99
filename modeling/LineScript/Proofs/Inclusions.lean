import Mathlib.Data.Finset.Card
import LineScript.Proofs.NodeLines
import LineScript.Proofs.Refusals
import LineScript.Proofs.StringBlindness

/-!
# Inclusions come to an end

An inclusion is read by reading another text, which may include others in turn, and a loader may
give another text each time it is asked.  What comes to an end is not the texts but their origins:
a text that is being included cannot include itself, so the origins on a chain of open inclusions
are all different, and each inclusion leaves fewer origins that the next one can have.

Reading is put here without any bound on how deep inclusions and blocks on one line are nested.
When a loader knows finitely many origins only, it always comes to an end, and the reader with a
bound on the depth does the same, as soon as the bound is above the number of origins.

## Main definitions

* `Piece`, `piecesOf` — the statements of a text before blocks on one line are expanded.
* `Visit` — an inclusion that is met, with the chain of inclusions around it.
* `Feeds`, `Parsed` — reading without a bound, and the inclusions that are met.
* `room` — how many origins are not on a chain yet.

## Main results

* `exists_feeds` — reading comes to an end.
* `Feeds.feedAll` — the reader with a bound does the same, or finds inclusions nested too deeply.
* `inclusions_end` — **reading comes to an end, and an inclusion is rejected as circular exactly
  when its origin is on its own chain.**
-/

namespace LineScript

variable {τ : Type} {s : Symbols} {load : Loader τ}

/-! ### Pieces -/

/-- A statement as it stands on a line; a block on one line is not expanded yet. -/
structure Piece where
  /-- The line it stands on. -/
  line : SourceLine
  /-- Its text. -/
  text : List Char

/-- The pieces of a line. -/
def linePieces (s : Symbols) (line : SourceLine) : List Piece :=
  let text := line.text.toList
  if (strip text).isEmpty || isComment s.comment.toList text then []
  else
    let parts := (splitStatements s.separator.toList text).map strip
    (parts.filter fun part => !part.isEmpty).map fun part => ⟨line, part⟩

/-- The pieces of a text. -/
def piecesOf (s : Symbols) (origin : Option String) (source : List Char) : List Piece :=
  (sourceLines origin source).flatMap (linePieces s)

/-- The statements that a piece stands for. -/
def Piece.statements (s : Symbols) (x : Piece) : List SourceStatement :=
  (expand s x.text).map fun (text, item) => ⟨x.line, text, item⟩

/-- The statements of a text are those of its pieces. -/
theorem statementsOf_eq_pieces (s : Symbols) (origin : Option String) (source : List Char) :
    statementsOf s origin source = (piecesOf s origin source).flatMap (Piece.statements s) := by
  unfold statementsOf piecesOf
  rw [List.flatMap_assoc]
  refine List.flatMap_congr fun line _ => ?_
  unfold lineStatements linePieces
  dsimp only
  split
  · rfl
  · rw [List.flatMap_map]
    rfl

variable {x : Piece} {p : Place} {xs : List Piece} {b : Builder} {t t' : τ}
  {r : Except Failure Builder}

theorem origin_of_mem_piecesOf {origin : Option String} {source : List Char}
    (h : x ∈ piecesOf s origin source) : x.line.origin = origin := by
  obtain ⟨line, hline, hx⟩ := List.mem_flatMap.1 h
  unfold linePieces at hx
  dsimp only at hx
  split at hx
  · cases hx
  · obtain ⟨part, -, rfl⟩ := List.mem_map.1 hx
    exact (isLineOf_of_mem_sourceLines hline).1

/-! ### Reading without a bound -/

/-- An inclusion that is met while a text is read. -/
structure Visit (τ : Type) where
  /-- The place of the text that it stands in; its chain are the inclusions that are open. -/
  place : Place
  /-- The line that it stands on. -/
  line : SourceLine
  /-- Its locator, as it is written between the quotes. -/
  locator : List Char
  /-- The builder at that point. -/
  builder : Builder
  /-- The state of the loader at that point. -/
  state : τ

/-- What the loader answers to an inclusion. -/
def Visit.answer (load : Loader τ) (v : Visit τ) : Except Fault Loaded × τ :=
  load (String.ofList (unescape v.locator)) v.place.base v.state

/-- The inclusion leads to an origin that is on its own chain. -/
def Visit.Circular (load : Loader τ) (v : Visit τ) (origin : String) : Prop :=
  ∃ loaded t, v.answer load = (.ok loaded, t) ∧ loaded.origin = origin ∧ origin ∈ v.place.chain

/-- `Feeds s load p xs b t vs r t'`: handing the pieces `xs` of a text at the place `p` to the
builder `b` comes to an end with `r`, takes the state `t` of the loader to `t'`, and meets the
inclusions `vs` in this order.  Nothing bounds how deep inclusions and blocks on one line are
nested. -/
inductive Feeds (s : Symbols) (load : Loader τ) : Place → List Piece → Builder → τ →
    List (Visit τ) → Except Failure Builder → τ → Prop where
  | done {p : Place} {b : Builder} {t : τ} : Feeds s load p [] b t [] (.ok b) t
  /-- A statement is taken. -/
  | take {p : Place} {x : Piece} {rest : List Piece} {b b₁ : Builder} {t t' : τ}
      {vs : List (Visit τ)} {r : Except Failure Builder} {item : Item} :
    classify s x.text = .item item → (∀ locator, item ≠ .inclusion locator) →
      b.apply s x.line x.text item = .ok b₁ → Feeds s load p rest b₁ t vs r t' →
        Feeds s load p (x :: rest) b t vs r t'
  /-- A statement is refused. -/
  | refuse {p : Place} {x : Piece} {rest : List Piece} {b : Builder} {t : τ} {f : Failure}
      {item : Item} :
    classify s x.text = .item item → (∀ locator, item ≠ .inclusion locator) →
      b.apply s x.line x.text item = .error f → Feeds s load p (x :: rest) b t [] (.error f) t
  /-- A block on one line is replaced by its parts. -/
  | expand {p : Place} {x : Piece} {rest : List Piece} {b : Builder} {t t' : τ}
      {vs : List (Visit τ)} {r : Except Failure Builder} {block : OneLiner} :
    classify s x.text = .inline block →
      Feeds s load p ((block.parts s).map (fun part => ⟨x.line, strip part⟩) ++ rest) b t vs r t' →
        Feeds s load p (x :: rest) b t vs r t'
  /-- A text cannot be loaded. -/
  | unloaded {p : Place} {x : Piece} {rest : List Piece} {b : Builder} {t t' : τ}
      {locator : List Char} {f : Fault} :
    classify s x.text = .item (.inclusion locator) →
      Visit.answer load ⟨p, x.line, locator, b, t⟩ = (.error f, t') →
        Feeds s load p (x :: rest) b t [⟨p, x.line, locator, b, t⟩]
          (.error (inclusionFailure x.line (String.ofList (unescape locator)) f)) t'
  /-- A text is on the chain already. -/
  | circular {p : Place} {x : Piece} {rest : List Piece} {b : Builder} {t t' : τ}
      {locator : List Char} {loaded : Loaded} :
    classify s x.text = .item (.inclusion locator) →
      Visit.answer load ⟨p, x.line, locator, b, t⟩ = (.ok loaded, t') → loaded.origin ∈ p.chain →
        Feeds s load p (x :: rest) b t [⟨p, x.line, locator, b, t⟩]
          (.error (.atLine (.circularInclude loaded.origin) x.line)) t'
  /-- A text is missing. -/
  | textless {p : Place} {x : Piece} {rest : List Piece} {b : Builder} {t t' : τ}
      {locator : List Char} {origin : String} :
    classify s x.text = .item (.inclusion locator) →
      Visit.answer load ⟨p, x.line, locator, b, t⟩ = (.ok ⟨none, origin⟩, t') → origin ∉ p.chain →
        Feeds s load p (x :: rest) b t [⟨p, x.line, locator, b, t⟩] (.error (.fault missingText)) t'
  /-- A text is read to its end, and then what stands behind the inclusion. -/
  | include {p : Place} {x : Piece} {rest : List Piece} {b b₁ : Builder} {t t₁ t₂ t' : τ}
      {vs vs' : List (Visit τ)} {r : Except Failure Builder} {locator text : List Char}
      {origin : String} :
    classify s x.text = .item (.inclusion locator) →
      Visit.answer load ⟨p, x.line, locator, b, t⟩ = (.ok ⟨some text, origin⟩, t₁) →
      origin ∉ p.chain →
      Feeds s load (p.inside origin) (piecesOf s (some origin) text) b t₁ vs (.ok b₁) t₂ →
      Feeds s load p rest b₁ t₂ vs' r t' →
        Feeds s load p (x :: rest) b t (⟨p, x.line, locator, b, t⟩ :: (vs ++ vs')) r t'
  /-- A text fails. -/
  | fail {p : Place} {x : Piece} {rest : List Piece} {b : Builder} {t t₁ t' : τ}
      {vs : List (Visit τ)} {f : Failure} {locator text : List Char} {origin : String} :
    classify s x.text = .item (.inclusion locator) →
      Visit.answer load ⟨p, x.line, locator, b, t⟩ = (.ok ⟨some text, origin⟩, t₁) →
      origin ∉ p.chain →
      Feeds s load (p.inside origin) (piecesOf s (some origin) text) b t₁ vs (.error f) t' →
        Feeds s load p (x :: rest) b t (⟨p, x.line, locator, b, t⟩ :: vs) (.error f) t'

/-- A whole text is read, without a bound, as the script `result` or with that failure, and meets
the inclusions `vs`. -/
def Parsed (s : Symbols) (load : Loader τ) (base origin : Option String) (source : String) (t : τ)
    (vs : List (Visit τ)) (result : Except Failure Script) (t' : τ) : Prop :=
  ∃ r, Feeds s load (.outermost base origin) (piecesOf s origin source.toList) {} t vs r t' ∧
    result = (r >>= Builder.finish).map fun body => ⟨firstLine origin source.toList, body⟩

variable {vs : List (Visit τ)}

/-- Pieces behind others: they are not looked at when those fail. -/
theorem Feeds.append {t₁ : τ} (h : Feeds s load p xs b t vs r t₁) (ys : List Piece) :
    (∀ f, r = .error f → Feeds s load p (xs ++ ys) b t vs (.error f) t₁) ∧
      ∀ b₁ vs' r' t', r = .ok b₁ → Feeds s load p ys b₁ t₁ vs' r' t' →
        Feeds s load p (xs ++ ys) b t (vs ++ vs') r' t' := by
  -- a failure ends the pieces at once: `ys` is reached only where all of `xs` is taken
  induction h with
  | done =>
    refine ⟨fun f hf => (by cases hf), fun b₁ vs' r' t' hr hys => ?_⟩
    cases hr
    exact hys
  | take hform hitem happly _ ih =>
    exact ⟨fun f hf => .take hform hitem happly (ih.1 f hf),
      fun b₁ vs' r' t' hr hys => .take hform hitem happly (ih.2 b₁ vs' r' t' hr hys)⟩
  | refuse hform hitem happly =>
    refine ⟨fun f hf => ?_, fun _ _ _ _ hr => by cases hr⟩
    cases hf
    exact .refuse hform hitem happly
  | expand hform _ ih =>
    rw [List.append_assoc] at ih
    exact ⟨fun f hf => .expand hform (ih.1 f hf),
      fun b₁ vs' r' t' hr hys => .expand hform (ih.2 b₁ vs' r' t' hr hys)⟩
  | unloaded hform hanswer =>
    refine ⟨fun f hf => ?_, fun _ _ _ _ hr => by cases hr⟩
    cases hf
    exact .unloaded hform hanswer
  | circular hform hanswer hchain =>
    refine ⟨fun f hf => ?_, fun _ _ _ _ hr => by cases hr⟩
    cases hf
    exact .circular hform hanswer hchain
  | textless hform hanswer hchain =>
    refine ⟨fun f hf => ?_, fun _ _ _ _ hr => by cases hr⟩
    cases hf
    exact .textless hform hanswer hchain
  | «include» hform hanswer hchain hin _ _ ih =>
    refine ⟨fun f hf => .include hform hanswer hchain hin (ih.1 f hf),
      fun b₁ vs' r' t' hr hys => ?_⟩
    rw [List.cons_append, List.cons_append, List.append_assoc]
    exact .include hform hanswer hchain hin (ih.2 b₁ vs' r' t' hr hys)
  | fail hform hanswer hchain hin _ =>
    refine ⟨fun f hf => ?_, fun _ _ _ _ hr => by cases hr⟩
    cases hf
    exact .fail hform hanswer hchain hin

/-! ### Origins that are left -/

/-- How many of the origins are not on the chain of a place. -/
def room (origins : Finset String) (p : Place) : Nat := (origins \ p.chain.toFinset).card

theorem room_le (origins : Finset String) (p : Place) : room origins p ≤ origins.card :=
  Finset.card_le_card Finset.sdiff_subset

/-- Inside an inclusion there is one origin less to go to. -/
theorem room_inside_lt {origins : Finset String} {origin : String} (hmem : origin ∈ origins)
    (hchain : origin ∉ p.chain) : room origins (p.inside origin) < room origins p := by
  refine Finset.card_lt_card ⟨fun o ho => ?_, fun hsub => ?_⟩
  · rw [Finset.mem_sdiff, List.mem_toFinset] at ho ⊢
    exact ⟨ho.1, fun h => ho.2 (List.mem_append_left _ h)⟩
  · have hin : origin ∈ origins \ (p.inside origin).chain.toFinset :=
      hsub (Finset.mem_sdiff.2 ⟨hmem, by rwa [List.mem_toFinset]⟩)
    rw [Finset.mem_sdiff, List.mem_toFinset] at hin
    exact hin.2 (List.mem_append_right _ List.mem_cons_self)

/-- A loader that knows no origins but these. -/
def Loader.Within (load : Loader τ) (origins : Finset String) : Prop :=
  ∀ {locator base t loaded t'}, load locator base t = (.ok loaded, t') → loaded.origin ∈ origins

/-! ### Reading comes to an end -/

section Ending

variable {table : Table} {origins : Finset String}

/-- Pieces come to an end when the texts that they include do. -/
theorem exists_feeds_of_inside (hs : Symbols.ofTable table = .ok s) (hload : load.Within origins)
    (hinside : ∀ origin ∈ origins, origin ∉ p.chain → ∀ (xs : List Piece) (b : Builder) (t : τ),
      ∃ vs r t', Feeds s load (p.inside origin) xs b t vs r t') :
    ∀ (size : Nat) (xs : List Piece) (b : Builder) (t : τ), (∀ x ∈ xs, x.text.length ≤ size) →
      ∃ vs r t', Feeds s load p xs b t vs r t' := by
  intro size
  -- on the length of the texts, since a block on one line is replaced by shorter ones
  induction size using Nat.strongRecOn with
  | ind size ihsize =>
    intro xs
    induction xs with
    | nil => exact fun b t _ => ⟨_, _, _, .done⟩
    | cons x rest ih =>
      intro b t hsize
      have hrest : ∀ y ∈ rest, y.text.length ≤ size :=
        fun y hy => hsize y (List.mem_cons_of_mem x hy)
      cases hform : classify s x.text with
      | inline block =>
        have hx := hsize x List.mem_cons_self
        have hpos := length_pos_of_inline hs hform
        obtain ⟨vs, r, t₁, hparts⟩ := ihsize (size - 1) (by omega)
          ((block.parts s).map fun part => ⟨x.line, strip part⟩) b t (by
            intro y hy
            obtain ⟨part, hpart, rfl⟩ := List.mem_map.1 hy
            have hlt := length_lt_of_mem_parts hs hform part hpart
            have hle := length_strip_le part
            dsimp only
            omega)
        cases r with
        | error f => exact ⟨_, _, _, .expand hform ((hparts.append rest).1 f rfl)⟩
        | ok b₁ =>
          obtain ⟨vs', r', t', hfeeds⟩ := ih b₁ t₁ hrest
          exact ⟨_, _, _, .expand hform ((hparts.append rest).2 _ _ _ _ rfl hfeeds)⟩
      | item item =>
        by_cases hinc : ∃ locator, item = .inclusion locator
        · obtain ⟨locator, rfl⟩ := hinc
          rcases hanswer : Visit.answer load ⟨p, x.line, locator, b, t⟩ with
            ⟨f | ⟨text, origin⟩, t₁⟩
          · exact ⟨_, _, _, .unloaded hform hanswer⟩
          by_cases hchain : origin ∈ p.chain
          · exact ⟨_, _, _, .circular hform hanswer hchain⟩
          cases text with
          | none => exact ⟨_, _, _, .textless hform hanswer hchain⟩
          | some text =>
            obtain ⟨vs, r, t₂, hin⟩ :=
              hinside origin (hload hanswer) hchain (piecesOf s (some origin) text) b t₁
            cases r with
            | error f => exact ⟨_, _, _, .fail hform hanswer hchain hin⟩
            | ok b₁ =>
              obtain ⟨vs', r', t', hfeeds⟩ := ih b₁ t₂ hrest
              exact ⟨_, _, _, .include hform hanswer hchain hin hfeeds⟩
        · have hitem : ∀ locator, item ≠ .inclusion locator := fun locator h => hinc ⟨locator, h⟩
          cases happly : b.apply s x.line x.text item with
          | error f => exact ⟨_, _, _, .refuse hform hitem happly⟩
          | ok b₁ =>
            obtain ⟨vs, r, t', hfeeds⟩ := ih b₁ t hrest
            exact ⟨_, _, _, .take hform hitem happly hfeeds⟩

/-- **Reading comes to an end**, whatever the texts include. -/
theorem exists_feeds (hs : Symbols.ofTable table = .ok s) (hload : load.Within origins) (p : Place)
    (xs : List Piece) (b : Builder) (t : τ) : ∃ vs r t', Feeds s load p xs b t vs r t' := by
  -- on the origins that are left for an inclusion
  induction hroom : room origins p using Nat.strongRecOn generalizing p xs b t with
  | ind k ih =>
    subst hroom
    have hinside : ∀ origin ∈ origins, origin ∉ p.chain → ∀ (xs : List Piece) (b : Builder) (t : τ),
        ∃ vs r t', Feeds s load (p.inside origin) xs b t vs r t' :=
      fun origin hmem hchain xs b t => ih _ (room_inside_lt hmem hchain) _ xs b t rfl
    exact exists_feeds_of_inside hs hload hinside (xs.map Piece.text).flatten.length xs b t
      fun x hx => (List.sublist_flatten_of_mem (List.mem_map_of_mem hx)).length_le

variable {inner : Feeder τ}

/-- A statement is handed to the builder, and then what stands behind it. -/
theorem feedAll_cons_of_item {rest : List Piece} {item : Item} (h : classify s x.text = .item item) :
    feedAll s load inner p ((x :: rest).flatMap (Piece.statements s)) b t =
      match feedItem s load inner p ⟨x.line, x.text, item⟩ b t with
      | (.ok b₁, t₁) => feedAll s load inner p (rest.flatMap (Piece.statements s)) b₁ t₁
      | (.error f, t₁) => (.error f, t₁) := by
  rw [List.flatMap_cons, Piece.statements, expand_of_item h]
  rfl

/-- A block on one line stands for what its parts stand for. -/
theorem Piece.statements_of_inline (hs : Symbols.ofTable table = .ok s) {block : OneLiner}
    (h : classify s x.text = .inline block) :
    x.statements s =
      ((block.parts s).map fun part => (⟨x.line, strip part⟩ : Piece)).flatMap
        (Piece.statements s) := by
  rw [Piece.statements, expand_of_inline hs h, List.map_flatMap, List.flatMap_map]
  rfl

/-- An inclusion on its own chain is rejected. -/
theorem feedItem_of_circular {locator : List Char} {t₁ : τ} {loaded : Loaded}
    (hanswer : Visit.answer load ⟨p, x.line, locator, b, t⟩ = (.ok loaded, t₁))
    (hchain : loaded.origin ∈ p.chain) :
    feedItem s load inner p ⟨x.line, x.text, .inclusion locator⟩ b t =
      (.error (.atLine (.circularInclude loaded.origin) x.line), t₁) := by
  have hload : load (String.ofList (unescape locator)) p.base t = (.ok loaded, t₁) := hanswer
  simp only [feedItem, feedInclusion, hload, List.contains_iff_mem, if_pos hchain]

/-- An inclusion that is not on its own chain is read. -/
theorem feedItem_of_not_circular {locator text : List Char} {t₁ : τ} {origin : String}
    (hanswer : Visit.answer load ⟨p, x.line, locator, b, t⟩ = (.ok ⟨some text, origin⟩, t₁))
    (hchain : origin ∉ p.chain) :
    feedItem s load inner p ⟨x.line, x.text, .inclusion locator⟩ b t =
      inner (p.inside origin) text b t₁ := by
  have hload : load (String.ofList (unescape locator)) p.base t = (.ok ⟨some text, origin⟩, t₁) :=
    hanswer
  simp only [feedItem, feedInclusion, hload, List.contains_iff_mem, if_neg hchain]

/-- The reader with a bound gives this, unless inclusions are nested too deeply for it, and then
there is more room for inclusions than the bound. -/
def GivesWithin (origins : Finset String) (n : Nat) (p : Place) (given : Except Failure Builder × τ)
    (r : Except Failure Builder) (t' : τ) : Prop :=
  given = (r, t') ∨ n < room origins p ∧ given.1 = .error (.fault tooDeep)

/-- Inside an inclusion the bound is one less, and so is the room, at least. -/
theorem givesWithin_inside {t₁ t₂ : τ} {text : List Char} {origin : String}
    (hmem : origin ∈ origins) (hchain : origin ∉ p.chain)
    (hin : ∀ n, GivesWithin origins n (p.inside origin)
      (feedAll s load (feed s load n) (p.inside origin)
        ((piecesOf s (some origin) text).flatMap (Piece.statements s)) b t₁) r t₂) (n : Nat) :
    GivesWithin origins n p (feed s load n (p.inside origin) text b t₁) r t₂ := by
  have hroom := room_inside_lt hmem hchain
  cases n with
  | zero => exact .inr ⟨by omega, rfl⟩
  | succ n =>
    rw [← statementsOf_eq_pieces] at hin
    exact (hin n).imp_right fun h => ⟨by omega, h.2⟩

/-- **The reader with a bound does the same** as the one without, or it finds inclusions nested too
deeply; and it does not when there is no more room for inclusions than the bound. -/
theorem Feeds.feedAll (hs : Symbols.ofTable table = .ok s) (hload : load.Within origins)
    (h : Feeds s load p xs b t vs r t') : ∀ n, GivesWithin origins n p
      (LineScript.feedAll s load (feed s load n) p (xs.flatMap (Piece.statements s)) b t) r t' := by
  induction h with
  | done => exact fun n => .inl rfl
  | take hform hitem happly _ ih =>
    intro n
    rw [feedAll_cons_of_item hform, feedItem_of_not_inclusion hitem, happly]
    exact ih n
  | refuse hform hitem happly =>
    intro n
    rw [feedAll_cons_of_item hform, feedItem_of_not_inclusion hitem, happly]
    exact .inl rfl
  | expand hform _ ih =>
    intro n
    rw [List.flatMap_cons, Piece.statements_of_inline hs hform, ← List.flatMap_append]
    exact ih n
  | @unloaded p _ _ _ t t' locator f hform hanswer =>
    intro n
    have hfault : load (String.ofList (unescape locator)) p.base t = (.error f, t') := hanswer
    rw [feedAll_cons_of_item hform]
    simp only [feedItem, feedInclusion, hfault]
    exact .inl rfl
  | circular hform hanswer hchain =>
    intro n
    rw [feedAll_cons_of_item hform, feedItem_of_circular hanswer hchain]
    exact .inl rfl
  | @textless p _ _ _ t t' locator origin hform hanswer hchain =>
    intro n
    have htext : load (String.ofList (unescape locator)) p.base t = (.ok ⟨none, origin⟩, t') :=
      hanswer
    rw [feedAll_cons_of_item hform]
    simp only [feedItem, feedInclusion, htext, List.contains_iff_mem, if_neg hchain]
    exact .inl rfl
  | «include» hform hanswer hchain _ _ ihin ih =>
    intro n
    rw [feedAll_cons_of_item hform, feedItem_of_not_circular hanswer hchain]
    -- the text inside is read as without a bound, or it is nested too deeply, and so is the whole
    rcases givesWithin_inside (hload hanswer) hchain ihin n with heq | ⟨hlt, hdeep⟩
    · rw [heq]
      exact ih n
    · revert hdeep
      rcases feed s load n _ _ _ _ with ⟨r₁, t₁⟩
      rintro rfl
      exact .inr ⟨hlt, rfl⟩
  | fail hform hanswer hchain _ ihin =>
    intro n
    rw [feedAll_cons_of_item hform, feedItem_of_not_circular hanswer hchain]
    rcases givesWithin_inside (hload hanswer) hchain ihin n with heq | ⟨hlt, hdeep⟩
    · rw [heq]
      exact .inl rfl
    · revert hdeep
      rcases feed s load n _ _ _ _ with ⟨r₁, t₁⟩
      rintro rfl
      exact .inr ⟨hlt, rfl⟩

end Ending

/-! ### The inclusions that are met -/

theorem nodup_inside {origin : String} (hchain : p.chain.Nodup) (hnew : origin ∉ p.chain) :
    (p.inside origin).chain.Nodup :=
  List.nodup_append.2 ⟨hchain, List.nodup_singleton _, fun _ ha _ hb hab =>
    hnew (List.mem_singleton.1 hb ▸ hab ▸ ha)⟩

theorem not_circular {v : Visit τ} {loaded : Loaded} {origin : String}
    (hanswer : v.answer load = (.ok loaded, t)) (hnew : loaded.origin ∉ v.place.chain) :
    ¬ v.Circular load origin := by
  rintro ⟨loaded', t', hanswer', rfl, hchain⟩
  rw [hanswer] at hanswer'
  cases hanswer'
  exact hnew hchain

/-- The origins on the chain around an inclusion are all different, and it stands on a line of the
text that it is in. -/
theorem Feeds.nodup_chain (h : Feeds s load p xs b t vs r t') (hchain : p.chain.Nodup)
    (horigin : ∀ x ∈ xs, x.line.origin = p.origin) :
    ∀ v ∈ vs, v.place.chain.Nodup ∧ v.line.origin = v.place.origin := by
  induction h with
  | done | refuse => exact fun v hv => by cases hv
  | take _ _ _ _ ih => exact ih hchain fun y hy => horigin y (List.mem_cons_of_mem _ hy)
  | @expand _ x _ _ _ _ _ _ _ _ _ ih =>
    refine ih hchain fun y hy => ?_
    rcases List.mem_append.1 hy with hy | hy
    · obtain ⟨part, -, rfl⟩ := List.mem_map.1 hy
      exact horigin x List.mem_cons_self
    · exact horigin y (List.mem_cons_of_mem _ hy)
  | unloaded | circular | textless =>
    exact List.forall_mem_singleton.2 ⟨hchain, horigin _ List.mem_cons_self⟩
  | «include» _ _ hnew _ _ ihin ih =>
    refine List.forall_mem_cons.2
      ⟨⟨hchain, horigin _ List.mem_cons_self⟩, List.forall_mem_append.2 ⟨?_, ?_⟩⟩
    · exact ihin (nodup_inside hchain hnew) fun y hy => origin_of_mem_piecesOf hy
    · exact ih hchain fun y hy => horigin y (List.mem_cons_of_mem _ hy)
  | fail _ _ hnew _ ihin =>
    refine List.forall_mem_cons.2 ⟨⟨hchain, horigin _ List.mem_cons_self⟩, ?_⟩
    exact ihin (nodup_inside hchain hnew) fun y hy => origin_of_mem_piecesOf hy

/-- A circular inclusion is what reading fails with, so it is the last one that is met. -/
theorem Feeds.error_of_circular (h : Feeds s load p xs b t vs r t') :
    ∀ v ∈ vs, ∀ origin, v.Circular load origin →
      r = .error (.atLine (.circularInclude origin) v.line) := by
  induction h with
  | done | refuse => exact fun v hv => by cases hv
  | take _ _ _ _ ih => exact ih
  | expand _ _ ih => exact ih
  | unloaded _ hanswer =>
    refine List.forall_mem_singleton.2 ?_
    rintro origin ⟨loaded, t₁, hloaded, -, -⟩
    rw [hanswer] at hloaded
    cases hloaded
  | circular _ hanswer _ =>
    refine List.forall_mem_singleton.2 ?_
    rintro origin ⟨loaded, t₁, hloaded, rfl, -⟩
    rw [hanswer] at hloaded
    cases hloaded
    rfl
  | textless _ hanswer hnew =>
    exact List.forall_mem_singleton.2 fun _ hcircular =>
      absurd hcircular (not_circular hanswer hnew)
  | «include» _ hanswer hnew _ _ ihin ih =>
    refine List.forall_mem_cons.2 ⟨fun _ hcircular => ?_, List.forall_mem_append.2 ⟨?_, ih⟩⟩
    · exact absurd hcircular (not_circular hanswer hnew)
    · -- the text inside was read to its end, so nothing in it was circular
      intro v hv origin hcircular
      cases ihin v hv origin hcircular
  | fail _ hanswer hnew _ ihin =>
    exact List.forall_mem_cons.2
      ⟨fun _ hcircular => absurd hcircular (not_circular hanswer hnew), ihin⟩

/-- Reading fails with a circular inclusion only where one is met. -/
theorem Feeds.circular_of_error {origin : String} {line : SourceLine}
    (h : Feeds s load p xs b t vs r t') (hr : r = .error (.atLine (.circularInclude origin) line)) :
    ∃ v ∈ vs, v.line = line ∧ v.Circular load origin := by
  induction h with
  | done => cases hr
  | take _ _ _ _ ih => exact ih hr
  | expand _ _ ih => exact ih hr
  | @refuse _ x _ b _ _ item _ _ happly =>
    rw [Except.error.inj hr] at happly
    cases ((b.refusal_apply x.text item).of_error happly).isOfStatement
  | unloaded =>
    unfold inclusionFailure at hr
    split at hr <;> cases hr
  | circular _ hanswer hchain =>
    obtain ⟨hcause, hline⟩ := Failure.atLine_inj.1 (Except.error.inj hr)
    cases hcause
    exact ⟨_, List.mem_cons_self, hline, _, _, hanswer, rfl, hchain⟩
  | textless => cases hr
  | «include» _ _ _ _ _ _ ih =>
    obtain ⟨v, hv, hcircular⟩ := ih hr
    exact ⟨v, List.mem_cons_of_mem _ (List.mem_append_right _ hv), hcircular⟩
  | fail _ _ _ _ ihin =>
    obtain ⟨v, hv, hcircular⟩ := ihin hr
    exact ⟨v, List.mem_cons_of_mem _ hv, hcircular⟩

/-- An inclusion that is not on its own chain is entered: its text is read, at its place. -/
theorem Feeds.entered (h : Feeds s load p xs b t vs r t') :
    ∀ v ∈ vs, ∀ text origin t₁, v.answer load = (.ok ⟨some text, origin⟩, t₁) →
      origin ∉ v.place.chain → ∃ inner r₁ t₂, Feeds s load (v.place.inside origin)
        (piecesOf s (some origin) text) v.builder t₁ inner r₁ t₂ ∧ inner ⊆ vs := by
  induction h with
  | done | refuse => exact fun v hv => by cases hv
  | take _ _ _ _ ih => exact ih
  | expand _ _ ih => exact ih
  | unloaded _ hanswer | textless _ hanswer =>
    refine List.forall_mem_singleton.2 fun text origin t₁ hloaded => ?_
    rw [hanswer] at hloaded
    cases hloaded
  | circular _ hanswer hchain =>
    refine List.forall_mem_singleton.2 fun text origin t₁ hloaded hnew => ?_
    rw [hanswer] at hloaded
    cases hloaded
    exact absurd hchain hnew
  | «include» _ hanswer _ hin _ ihin ih =>
    intro v hv text origin t₁ hloaded hnew
    rcases List.mem_cons.1 hv with rfl | hv
    · rw [hanswer] at hloaded
      cases hloaded
      exact ⟨_, _, _, hin, fun w hw => List.mem_cons_of_mem _ (List.mem_append_left _ hw)⟩
    rcases List.mem_append.1 hv with hv | hv
    · obtain ⟨inner, r₁, t₂, hread, hsub⟩ := ihin v hv text origin t₁ hloaded hnew
      exact ⟨inner, r₁, t₂, hread,
        fun w hw => List.mem_cons_of_mem _ (List.mem_append_left _ (hsub hw))⟩
    · obtain ⟨inner, r₁, t₂, hread, hsub⟩ := ih v hv text origin t₁ hloaded hnew
      exact ⟨inner, r₁, t₂, hread,
        fun w hw => List.mem_cons_of_mem _ (List.mem_append_right _ (hsub hw))⟩
  | fail _ hanswer _ hin ihin =>
    intro v hv text origin t₁ hloaded hnew
    rcases List.mem_cons.1 hv with rfl | hv
    · rw [hanswer] at hloaded
      cases hloaded
      exact ⟨_, _, _, hin, fun w hw => List.mem_cons_of_mem _ hw⟩
    · obtain ⟨inner, r₁, t₂, hread, hsub⟩ := ihin v hv text origin t₁ hloaded hnew
      exact ⟨inner, r₁, t₂, hread, fun w hw => List.mem_cons_of_mem _ (hsub hw)⟩

/-! ### Whole texts -/

section Texts

variable {table : Table} {origins : Finset String} {base origin : Option String} {source : String}
  {t t' : τ} {visits : List (Visit τ)} {result : Except Failure Script}

/-- The reader with a bound reads a whole text as the one without, or finds inclusions nested too
deeply, for which the bound is not above the number of origins. -/
theorem Parsed.parseWithin (hs : Symbols.ofTable table = .ok s) (hload : load.Within origins)
    (h : Parsed s load base origin source t visits result t') (n : Nat) :
    LineScript.parseWithin s load n base origin source t = (result, t') ∨
      n ≤ origins.card ∧
        (LineScript.parseWithin s load n base origin source t).1 = .error (.fault tooDeep) := by
  obtain ⟨r, hfeeds, rfl⟩ := h
  cases n with
  | zero => exact .inr ⟨Nat.zero_le _, rfl⟩
  | succ n =>
    have hall := hfeeds.feedAll hs hload n
    rw [← statementsOf_eq_pieces] at hall
    unfold LineScript.parseWithin feed
    rcases hall with heq | ⟨hlt, hdeep⟩
    · left
      dsimp only [Place.outermost] at heq ⊢
      rw [heq]
      cases r <;> rfl
    · right
      refine ⟨Nat.lt_of_lt_of_le hlt (room_le origins _), ?_⟩
      dsimp only [Place.outermost] at hdeep ⊢
      revert hdeep
      rcases LineScript.feedAll s load _ _ _ _ _ with ⟨r₁, t₁⟩
      rintro rfl
      rfl

/-- A text is rejected as circular exactly when a circular inclusion is met: its statements fail
with nothing of the kind, and neither does its end. -/
theorem Parsed.circular_iff (h : Parsed s load base origin source t visits result t') (o : String)
    (line : SourceLine) : result = .error (.atLine (.circularInclude o) line) ↔
      ∃ v ∈ visits, v.line = line ∧ v.Circular load o := by
  obtain ⟨r, hfeeds, rfl⟩ := h
  constructor
  · intro hresult
    cases r with
    | error f => exact hfeeds.circular_of_error (congrArg _ (Except.error.inj hresult))
    | ok b =>
      exfalso
      simp only [bind, Except.bind, Builder.finish] at hresult
      split at hresult <;> cases hresult
  · rintro ⟨v, hv, rfl, hcircular⟩
    rw [hfeeds.error_of_circular v hv o hcircular]
    rfl

theorem nodup_outermost (base origin : Option String) :
    (Place.outermost base origin).chain.Nodup := by
  unfold Place.outermost
  dsimp only
  split
  · exact List.nodup_nil
  · exact List.nodup_nil
  · exact List.nodup_singleton _

/-- **Inclusions come to an end.**  A loader may give other texts each time, as long as it knows
finitely many origins.  Then reading without a bound comes to an end, and reading with a bound gives
the same as soon as the bound is above the number of origins; with a lower one it gives the same or
finds inclusions nested too deeply.  The origins on the chain around an inclusion are all different.
The text is rejected as circular, on a line, exactly when an inclusion on this line leads to an
origin on its own chain, and an inclusion that does not is entered. -/
theorem inclusions_end (hs : Symbols.ofTable table = .ok s) (hload : load.Within origins)
    (base origin : Option String) (source : String) (t : τ) :
    (∃ visits result t', Parsed s load base origin source t visits result t') ∧
    ∀ visits result t', Parsed s load base origin source t visits result t' →
      (∀ n, origins.card < n → parseWithin s load n base origin source t = (result, t')) ∧
      (∀ n, parseWithin s load n base origin source t = (result, t') ∨
        (parseWithin s load n base origin source t).1 = .error (.fault tooDeep)) ∧
      (∀ v ∈ visits, v.place.chain.Nodup ∧ v.line.origin = v.place.origin) ∧
      (∀ o line, result = .error (.atLine (.circularInclude o) line) ↔
        ∃ v ∈ visits, v.line = line ∧ v.Circular load o) ∧
      ∀ v ∈ visits, ∀ text o t₁, v.answer load = (.ok ⟨some text, o⟩, t₁) → o ∉ v.place.chain →
        ∃ inner r t₂, Feeds s load (v.place.inside o) (piecesOf s (some o) text) v.builder t₁
            inner r t₂ ∧ inner ⊆ visits := by
  constructor
  · obtain ⟨visits, r, t', hfeeds⟩ :=
      exists_feeds hs hload (.outermost base origin) (piecesOf s origin source.toList) {} t
    exact ⟨visits, _, t', r, hfeeds, rfl⟩
  · intro visits result t' h
    have ⟨r, hfeeds, _⟩ := h
    refine ⟨fun n hn => ?_, fun n => ?_, ?_, h.circular_iff, hfeeds.entered⟩
    · exact (h.parseWithin hs hload n).resolve_right fun hdeep => by omega
    · exact (h.parseWithin hs hload n).imp_right And.right
    · exact hfeeds.nodup_chain (nodup_outermost base origin) fun x hx => origin_of_mem_piecesOf hx

/-- A loader whose second text leads nowhere at first and later back to the first one. -/
def turningTexts : Loader Nat := fun locator _ n =>
  if locator = "a" then (.ok ⟨some "$ 'b'".toList, "a"⟩, n + 1)
  else (.ok ⟨some (if n = 0 then "x = 1" else "$ 'a'").toList, "b"⟩, n + 1)

theorem turningTexts_within : turningTexts.Within {"a", "b"} := by
  intro locator base n loaded n' h
  unfold turningTexts at h
  split at h <;> cases h <;> simp

/-- The same text may be included again, as long as it does not lead to itself. -/
theorem inclusions_end_turning :
    (parse standardSymbols turningTexts none none "$ 'b'\n$ 'a'" 0).1 =
        .error (.atLine (.circularInclude "a") ⟨1, "$ 'a'", some "b"⟩) ∧
      ∃ visits result t',
        Parsed standardSymbols turningTexts none none "$ 'b'\n$ 'a'" 0 visits result t' ∧
        ∃ v ∈ visits, v.line = ⟨1, "$ 'a'", some "b"⟩ ∧ v.Circular turningTexts "a" := by
  have hparse : (parse standardSymbols turningTexts none none "$ 'b'\n$ 'a'" 0).1 =
      .error (.atLine (.circularInclude "a") ⟨1, "$ 'a'", some "b"⟩) := by
    rfl
  refine ⟨hparse, ?_⟩
  obtain ⟨⟨visits, result, t', hparsed⟩, hends⟩ :=
    inclusions_end ofTable_standard turningTexts_within none none "$ 'b'\n$ 'a'" 0
  obtain ⟨hbound, -, -, hcircular, -⟩ := hends visits result t' hparsed
  have hresult : parse standardSymbols turningTexts none none "$ 'b'\n$ 'a'" 0 = (result, t') :=
    hbound inclusionLimit (by decide)
  rw [hresult] at hparse
  exact ⟨visits, result, t', hparsed, (hcircular "a" _).1 hparse⟩

end Texts

end LineScript
