import LineScript.Proofs.Blur
import LineScript.Proofs.StandardSymbols

/-!
# Inclusions are spliced in

An inclusion stands for the statements of the text it loads, whose own inclusions are seen from
where that text comes from.  Replacing every inclusion, wherever it stands, by the statements it
stands for makes one stream of statements; and a text is the script that this stream is, or fails
as the stream does, for the statements of an included text go to the same builder as those
around it.

## Main definitions

* `Spliced` — a stream of statements with every inclusion replaced.
* `lineless` — the blur that leaves nothing of lines.

## Main results

* `feedAll_of_spliced` — handing over statements is handing over their spliced stream.
* `spliced_of_feed` — what could be handed over can be spliced.
* `parse_eq_spliced` — **a text is the script of its spliced stream.**
-/

namespace LineScript

variable {τ : Type} {s : Symbols} {load : Loader τ}

/-! ### Splicing -/

/-- `Spliced s load p sts t loads d out t'`: at the place `p`, the stream `out` is the statements
`sts` with every inclusion replaced by the stream of the text it loads.  All loads succeed and no
chain of inclusions comes back to an origin; the loads give the texts `loads`, each with its
origin, and take the state `t` of the loader to `t'`; and inclusions are nested `d` deep. -/
inductive Spliced (s : Symbols) (load : Loader τ) : Place → List SourceStatement → τ →
    List (String × List Char) → Nat → List SourceStatement → τ → Prop where
  | nil {p : Place} {t : τ} : Spliced s load p [] t [] 0 [] t
  | keep {p : Place} {st : SourceStatement} {rest out : List SourceStatement}
      {loads : List (String × List Char)} {t t' : τ} {d : Nat} :
    (∀ locator, st.item ≠ .inclusion locator) → Spliced s load p rest t loads d out t' →
      Spliced s load p (st :: rest) t loads d (st :: out) t'
  | inclusion {p : Place} {st : SourceStatement} {rest out out' : List SourceStatement}
      {locator text : List Char} {origin : String} {loads loads' : List (String × List Char)}
      {t t₁ t₂ t' : τ} {d d' : Nat} :
    st.item = .inclusion locator →
      load (String.ofList (unescape locator)) p.base t = (.ok ⟨some text, origin⟩, t₁) →
      origin ∉ p.chain →
      Spliced s load (p.inside origin) (statementsOf s (some origin) text) t₁ loads d out t₂ →
      Spliced s load p rest t₂ loads' d' out' t' →
        Spliced s load p (st :: rest) t ((origin, text) :: loads ++ loads') (max (d + 1) d')
          (out ++ out') t'

variable {p : Place} {t : τ} {loads : List (String × List Char)} {o : Except Failure Builder × τ}

/-- A statement of a spliced stream is one of the statements, or of a text that was loaded. -/
theorem Spliced.mem {sts out : List SourceStatement} {t' : τ} {d : Nat}
    (h : Spliced s load p sts t loads d out t') :
    ∀ st ∈ out, st ∈ sts ∨ ∃ origin text, (origin, text) ∈ loads ∧
      st ∈ statementsOf s (some origin) text := by
  induction h with
  | nil => exact fun st hst => nomatch hst
  | keep _ _ ih =>
    intro st hst
    rcases List.mem_cons.1 hst with rfl | hst
    · exact .inl List.mem_cons_self
    · exact (ih st hst).imp_left (List.mem_cons_of_mem _)
  | inclusion _ _ _ _ _ ihin ihrest =>
    intro st hst
    rcases List.mem_append.1 hst with hst | hst
    · rcases ihin st hst with hst | ⟨origin, text, hload, hst⟩
      · exact .inr ⟨_, _, List.mem_cons_self, hst⟩
      · exact .inr ⟨origin, text, List.mem_cons_of_mem _ (List.mem_append_left _ hload), hst⟩
    · rcases ihrest st hst with hst | ⟨origin, text, hload, hst⟩
      · exact .inl (List.mem_cons_of_mem _ hst)
      · exact .inr ⟨origin, text, List.mem_cons_of_mem _ (List.mem_append_right _ hload), hst⟩

/-- An outcome of handing over statements is that of handing over a stream of them, and ends in a
state when there is no failure. -/
def FedAs (o : Except Failure Builder × τ) (r : Except Failure Builder) (t : τ) : Prop :=
  o.1 = r ∧ ∀ b, r = .ok b → o.2 = t

theorem FedAs.eq_of_ok {b : Builder} (h : FedAs o (.ok b) t) : o = (.ok b, t) :=
  Prod.ext h.1 (h.2 b rfl)

theorem FedAs.eq_of_error {f : Failure} (h : FedAs o (.error f) t) : o = (.error f, o.2) :=
  Prod.ext h.1 rfl

theorem FedAs.of_error {f : Failure} (h : o.1 = .error f) : FedAs o (.error f) t :=
  ⟨h, fun b hb => by cases hb⟩

theorem feedItem_of_not_inclusion {inner : Feeder τ} {st : SourceStatement}
    (h : ∀ locator, st.item ≠ .inclusion locator) (b : Builder) (t : τ) :
    feedItem s load inner p st b t = (b.apply s st.line st.text st.item, t) := by
  unfold feedItem
  split
  next locator hitem => exact absurd hitem (h locator)
  next => rfl

/-- **Handing over statements is handing over their spliced stream**, when inclusions may be nested
as deeply as they are. -/
theorem feedAll_of_spliced {sts out : List SourceStatement} {t' : τ} {d : Nat}
    (h : Spliced s load p sts t loads d out t') :
    ∀ {n : Nat}, d ≤ n → ∀ b : Builder,
      FedAs (feedAll s load (feed s load n) p sts b t) (feedStream s out b) t' := by
  -- the builder is arbitrary, since an inclusion may stand inside any number of open blocks
  induction h with
  | nil => exact fun _ b => ⟨rfl, fun _ _ => rfl⟩
  | @keep p st rest out _ t t' d hst hrest ih =>
    intro n hn b
    rw [feedAll, feedItem_of_not_inclusion hst, feedStream]
    cases hb : b.apply s st.line st.text st.item with
    | error f => exact .of_error rfl
    | ok b₁ => exact ih hn b₁
  | @inclusion p st rest out out' locator text origin _ _ t t₁ t₂ t' d d' hitem hload hchain hin
      hrest ihin ihrest =>
    intro n hn b
    obtain ⟨k, rfl⟩ : ∃ k, n = k + 1 := ⟨n - 1, by omega⟩
    have hinner := ihin (n := k) (by omega) b
    have hfirst : feedItem s load (feed s load (k + 1)) p st b t =
        feedAll s load (feed s load k) (p.inside origin) (statementsOf s (some origin) text) b
          t₁ := by
      unfold feedItem
      rw [hitem]
      dsimp only
      unfold feedInclusion
      rw [hload]
      dsimp only
      rw [if_neg (by simpa using hchain)]
      rfl
    rw [feedAll, hfirst, feedStream_append]
    cases hb : feedStream s out b with
    | error f =>
      rw [hb] at hinner
      rw [hinner.eq_of_error]
      exact .of_error rfl
    | ok b₁ =>
      rw [hb] at hinner
      rw [hinner.eq_of_ok]
      exact ihrest (by omega) b₁

/-- What could be handed over, without a failure, can be spliced, and the stream can be handed over
to the same effect. -/
theorem spliced_of_feedAll {inner : Feeder τ}
    (hinner : ∀ {origin text b b' t t'}, inner (p.inside origin) text b t = (.ok b', t') →
      ∃ loads d out,
        Spliced s load (p.inside origin) (statementsOf s (some origin) text) t loads d out t' ∧
          feedStream s out b = .ok b') :
    ∀ {sts : List SourceStatement} {b b' : Builder} {t t' : τ},
      feedAll s load inner p sts b t = (.ok b', t') →
        ∃ loads d out, Spliced s load p sts t loads d out t' ∧ feedStream s out b = .ok b' := by
  intro sts
  induction sts with
  | nil =>
    intro b b' t t' h
    cases h
    exact ⟨[], 0, [], .nil, rfl⟩
  | cons st rest ih =>
    intro b b' t t' h
    rw [feedAll] at h
    rcases hf : feedItem s load inner p st b t with ⟨f | b₁, t₁⟩ <;> rw [hf] at h
    · cases h
    obtain ⟨loads', d', out', hrest, hstream⟩ := ih h
    by_cases hst : ∃ locator, st.item = .inclusion locator
    · obtain ⟨locator, hitem⟩ := hst
      unfold feedItem at hf
      rw [hitem] at hf
      dsimp only at hf
      unfold feedInclusion at hf
      rcases hl : load (String.ofList (unescape locator)) p.base t with ⟨f | ⟨text, origin⟩, t₀⟩ <;>
        rw [hl] at hf <;> dsimp only at hf
      · cases hf
      split at hf
      · cases hf
      next hchain =>
        cases text with
        | none => cases hf
        | some text =>
          obtain ⟨loads, d, out, hin, hfirst⟩ := hinner hf
          refine ⟨_, _, _, .inclusion hitem hl (by simpa using hchain) hin hrest, ?_⟩
          rw [feedStream_append, hfirst]
          exact hstream
    · have hne : ∀ locator, st.item ≠ .inclusion locator := fun locator hl => hst ⟨locator, hl⟩
      rw [feedItem_of_not_inclusion hne] at hf
      obtain ⟨hb, rfl⟩ := Prod.mk.inj hf
      refine ⟨loads', d', _, .keep hne hrest, ?_⟩
      rw [feedStream, hb]
      exact hstream

theorem spliced_of_feed : ∀ {n : Nat} {p : Place} {source : List Char} {b b' : Builder} {t t' : τ},
    feed s load n p source b t = (.ok b', t') →
      ∃ loads d out, Spliced s load p (statementsOf s p.origin source) t loads d out t' ∧
        feedStream s out b = .ok b' := by
  intro n
  induction n with
  | zero =>
    intro p source b b' t t' h
    cases h
  | succ n ih =>
    intro p source b b' t t' h
    exact spliced_of_feedAll (fun hinner => ih hinner) h

/-! ### Lines do not matter -/

/-- The blur that leaves nothing of lines, and texts as they are. -/
def lineless : Blur where
  line _ := ⟨0, "", none⟩
  string text := text

/-- A text says the same on any two lines. -/
theorem saysAlike_lineless (line line' : SourceLine) (text : List Char) :
    SaysAlike s lineless line line' text text := by
  have hline : lineless.line line = lineless.line line' := rfl
  refine saysAlike_of_read hline rfl fun words _ => ?_
  cases Term.read (s.grammar words) (strip text) with
  | error d => exact .error trivial
  | ok t => exact .ok (.refl t)

/-- A statement that is no inclusion says the same on any two lines. -/
theorem itemLike_lineless (line line' : SourceLine) (text : List Char) {item : Item}
    (hitem : ∀ locator, item ≠ .inclusion locator) :
    Item.Like s lineless line line' text item text item := by
  have halike := fun e => saysAlike_lineless (s := s) line line' e
  cases item with
  | inclusion locator => exact absurd rfl (hitem locator)
  | comment | loopClose | functionClose | ifClose | otherwise | importing => constructor
  | loopOpen | ifOpen | elseIf =>
    constructor
    exact halike _
  | returning e => exact .returning rfl (halike e)
  | assignment name operator e => exact .assignment (halike e)
  | bareCall name args => exact .bareCall (halike _)
  | expression => exact .expression (halike text)
  | functionOpen name params =>
    refine .functionOpen ?_
    cases hp : readParams params with
    | ok ps => exact .ok rfl
    | error c => exact .error ⟨malformed_of_readParams hp, malformed_of_readParams hp⟩

/-- Nothing of a statement depends on the line it stands on but the lines of its nodes. -/
theorem actsLike_lineless {st st' : SourceStatement} (htext : st'.text = st.text)
    (hitem : st'.item = st.item) : st.ActsLike s lineless st' := by
  intro b b' hb
  have hline : lineless.line st.line = lineless.line st'.line := rfl
  rw [htext, hitem]
  by_cases hinc : ∃ locator, st.item = .inclusion locator
  · obtain ⟨locator, hinc⟩ := hinc
    rw [hinc]
    exact .ok hb
  · refine Builder.apply_like hline hb (itemLike_lineless _ _ _ fun locator h => ?_)
    exact hinc ⟨locator, h⟩

/-! ### Texts -/

/-- With inclusions nested deeply enough, a text is the script of its spliced stream. -/
theorem parseWithin_of_spliced (base origin : Option String) (source : String) {t' : τ} {d n : Nat}
    {out : List SourceStatement}
    (h : Spliced s load (.outermost base origin) (statementsOf s origin source.toList) t loads d out
      t') (hn : d < n) :
    (parseWithin s load n base origin source t).1 =
      streamScript s (firstLine origin source.toList) out := by
  obtain ⟨k, rfl⟩ : ∃ k, n = k + 1 := ⟨n - 1, by omega⟩
  have hfed : FedAs (feed s load (k + 1) (.outermost base origin) source.toList {} t)
      (feedStream s out {}) t' := feedAll_of_spliced h (Nat.lt_succ_iff.1 hn) {}
  unfold parseWithin streamScript
  dsimp only
  cases hb : feedStream s out {} with
  | error f =>
    rw [hb] at hfed
    rw [hfed.eq_of_error]
    rfl
  | ok b =>
    rw [hb] at hfed
    rw [hfed.eq_of_ok]
    rfl

/-- Texts under their paths; a locator is seen from a directory. -/
def shelf : Loader Unit := fun locator base _ =>
  let path := (base.map (· ++ "/")).getD "" ++ locator
  match [("lib/open", "$ 'head'"), ("lib/head", "f n #"), ("step", "~ n")].lookup path with
  | some text => (.ok ⟨some text.toList, path⟩, ())
  | none => (.error ⟨.os, "not on the shelf"⟩, ())

/-- A function that is opened two texts further in, takes its body twice from the same text and
is closed behind the inclusions. -/
def scattered : String := "$ 'lib/open'; $ 'step'\n$ 'step'; #"

/-- The stream of statements that the scattered function is. -/
def gathered : List SourceStatement :=
  let step : SourceStatement := ⟨⟨1, "~ n", some "step"⟩, "~ n".toList, .returning "n".toList⟩
  [⟨⟨1, "f n #", some "lib/head"⟩, "f n #".toList, .functionOpen "f".toList " n".toList⟩,
    step, step, ⟨⟨2, "$ 'step'; #", none⟩, "#".toList, .functionClose⟩]

/-- The texts that are loaded for the scattered function, in order. -/
def loaded : List (String × List Char) :=
  [("lib/open", "$ 'head'".toList), ("lib/head", "f n #".toList), ("step", "~ n".toList),
    ("step", "~ n".toList)]

theorem spliced_scattered :
    Spliced standardSymbols shelf (.outermost none none)
      (statementsOf standardSymbols none scattered.toList) () loaded 2 gathered () := by
  let first : SourceLine := ⟨1, "$ 'lib/open'; $ 'step'", none⟩
  let second : SourceLine := ⟨2, "$ 'step'; #", none⟩
  have hmain : statementsOf standardSymbols none scattered.toList =
      [⟨first, "$ 'lib/open'".toList, .inclusion "lib/open".toList⟩,
        ⟨first, "$ 'step'".toList, .inclusion "step".toList⟩,
        ⟨second, "$ 'step'".toList, .inclusion "step".toList⟩,
        ⟨second, "#".toList, .functionClose⟩] := by decide +kernel
  have hopen : statementsOf standardSymbols (some "lib/open") "$ 'head'".toList =
      [⟨⟨1, "$ 'head'", some "lib/open"⟩, "$ 'head'".toList, .inclusion "head".toList⟩] := by
    decide +kernel
  have hhead : statementsOf standardSymbols (some "lib/head") "f n #".toList = gathered.take 1 := by
    decide +kernel
  have hstep : statementsOf standardSymbols (some "step") "~ n".toList =
      (gathered.drop 1).take 1 := by decide +kernel
  rw [hmain]
  have hbody : ∀ p : Place, Spliced standardSymbols shelf p
      (statementsOf standardSymbols (some "step") "~ n".toList) () [] 0
      ((gathered.drop 1).take 1) () := by
    intro p
    rw [hstep]
    exact .keep nofun .nil
  have hopened : Spliced standardSymbols shelf (Place.inside (.outermost none none) "lib/open")
      (statementsOf standardSymbols (some "lib/open") "$ 'head'".toList) ()
      [("lib/head", "f n #".toList)] 1 (gathered.take 1) () := by
    have hin : ∀ p : Place, Spliced standardSymbols shelf p
        (statementsOf standardSymbols (some "lib/head") "f n #".toList) () [] 0
        (gathered.take 1) () := by
      intro p
      rw [hhead]
      exact .keep nofun .nil
    rw [hopen]
    exact .inclusion rfl rfl (by decide) (hin _) .nil
  have hend : Spliced standardSymbols shelf (.outermost none none)
      [⟨second, "#".toList, .functionClose⟩] () [] 0 (gathered.drop 3) () := .keep nofun .nil
  exact .inclusion rfl rfl (by decide) hopened (.inclusion rfl rfl (by decide) (hbody _)
    (.inclusion rfl rfl (by decide) (hbody _) hend))

end LineScript
