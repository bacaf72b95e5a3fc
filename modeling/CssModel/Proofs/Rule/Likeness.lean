import CssModel.Proofs.Rule.History
import CssModel.Proofs.Term.Likeness

/-!
# Rules that are equal

Rules are compared, hashed and written without regard to the style sheet that they are linked to,
to what they were asked before, and to how they came about. What is left when all that is taken away
is the *bare* value. Equality is being the same barely, for all values that can be reached: hence it
is an equivalence, equal values are hashed alike, and values that differ in links and in what is
remembered only are equal, are hashed alike and are written alike.

As with `CssModel.Renewable`, it is said once what a level adds to the ones below, and then for each
sort of header and item.

## Where the history matters

Comparing looks at the numbers in a value, and hashing at the contents that are remembered, which
might be wrong ones. Both are in order in what can be reached: `Made` for what is remembered, and
`NumbersMade` for the numbers. The headers of rules hold numbers too, in the queries of a media rule
and in the offsets of a keyframe.

## Main definitions

* `CssModel.Bare`: values with links and memories taken away
* `CssModel.Reachable`, `CssModel.LikeBare`

## Main results

* `CssModel.Container.beq_iff_bare`, `CssModel.Container.digest_bare`: one level
* `CssModel.likeBare`: what follows for any sort of value
* `CssModel.equality_ignores_links`: all sorts of values
-/

namespace CssModel

open Digested (digest)
open Renewable (UpToDate renewed)

/-- Values of which something can be taken away that is no part of what they say. -/
class Bare (α : Type) [BEq α] [Digested α] [Renewable α] where
  /-- The value without links and without what is remembered. -/
  bare : α → α := id
  /-- All numbers in the value. -/
  numbers : α → List Numeric := fun _ => []
  beq_iff : ∀ {a b : α}, NumbersMade (numbers a) → NumbersMade (numbers b) →
    ((a == b) = true ↔ bare a = bare b)
  digest_bare : ∀ {a : α}, UpToDate a → digest (bare a) = digest a := by
    exact fun _ => rfl

open Bare (bare numbers)

/-! ### One level -/

section Level

variable {α : Type} [BEq α] [Digested α] [Renewable α] [Bare α]

theorem list_beq_iff_bare {as bs : List α} (has : ∀ a ∈ as, NumbersMade (numbers a))
    (hbs : ∀ b ∈ bs, NumbersMade (numbers b)) :
    (as == bs) = true ↔ as.map bare = bs.map bare := by
  induction as generalizing bs with
  | nil => cases bs <;> simp
  | cons a as ih =>
    cases bs with
    | nil => simp
    | cons b bs =>
      obtain ⟨ha, has⟩ := List.forall_mem_cons.mp has
      obtain ⟨hb, hbs⟩ := List.forall_mem_cons.mp hbs
      simp [Bare.beq_iff ha hb, ih has hbs]

/-- The same for values of which nothing can be taken away. -/
theorem list_beq_iff_eq (hbare : (bare : α → α) = id) {as bs : List α}
    (has : NumbersMade (as.flatMap numbers)) (hbs : NumbersMade (bs.flatMap numbers)) :
    (as == bs) = true ↔ as = bs := by
  rw [list_beq_iff_bare (List.forall_mem_flatMap.mp has) (List.forall_mem_flatMap.mp hbs), hbare,
    List.map_id, List.map_id]

namespace Container

variable {η : Type} [BEq η] [HasData η] [Bare η] {c c' : Container η α}

/-- The container without links and memories, on all levels. -/
def bare (c : Container η α) : Container η α :=
  ⟨Bare.bare c.header, c.items.map Bare.bare, none⟩

/-- All numbers in the header and in the items. -/
def numbers (c : Container η α) : List Numeric :=
  Bare.numbers c.header ++ c.items.flatMap Bare.numbers

theorem numbersMade_iff : NumbersMade c.numbers ↔
    NumbersMade (Bare.numbers c.header) ∧ ∀ a ∈ c.items, NumbersMade (Bare.numbers a) := by
  simp only [numbers, NumbersMade, List.forall_mem_append, List.forall_mem_flatMap]

/-- **Containers are equal if they are barely the same.** -/
theorem beq_iff_bare (hc : NumbersMade c.numbers) (hc' : NumbersMade c'.numbers) :
    (c == c') = true ↔ c.bare = c'.bare := by
  obtain ⟨hheader, hitems⟩ := numbersMade_iff.mp hc
  obtain ⟨hheader', hitems'⟩ := numbersMade_iff.mp hc'
  change (c.header == c'.header && c.items == c'.items) = true ↔ _
  rw [Bool.and_eq_true, Bare.beq_iff hheader hheader', list_beq_iff_bare hitems hitems', bare, bare]
  simp

variable [ItemPolicy η α] [EntersUnchanged η α]

/-- What is remembered of a container that is up to date is what the bare container gives. -/
theorem digest_bare (h : c.IsUpToDate) : digest c.bare = digest c := by
  obtain ⟨hcontent, hitems⟩ := isUpToDate_iff.mp h
  have hheader : digest (Bare.bare c.header) = digest c.header := Bare.digest_bare trivial
  change Data.list [digest (Bare.bare c.header), .list ((c.items.map Bare.bare).map digest)] =
    .list [digest c.header, c.content]
  rw [hheader, hcontent, List.map_map]
  refine congrArg (fun items => Data.list [digest c.header, .list items]) ?_
  refine List.map_congr_left fun a ha => ?_
  rw [Function.comp, Bare.digest_bare (hitems a ha), Renewable.digest_renewed (hitems a ha)]

instance : Bare (Container η α) where
  bare := bare
  numbers := numbers
  beq_iff := beq_iff_bare
  digest_bare := digest_bare

end Container

end Level

/-! ### Terms, selectors and queries -/

instance : Bare Term where
  numbers t := t.value.numbers
  beq_iff := Term.beq_iff_eq

instance : Bare CompoundSelector where
  beq_iff _ _ := beq_iff_eq

instance : Bare ComplexSelector where
  beq_iff _ _ := beq_iff_eq

instance : Bare MediaExpression where
  numbers e := e.terms.flatMap numbers
  beq_iff {e e'} h h' := by
    obtain ⟨feature, terms⟩ := e
    obtain ⟨feature', terms'⟩ := e'
    change (feature == feature' && terms == terms') = true ↔ _
    simp [list_beq_iff_eq rfl h h']

instance : Bare MediaQuery where
  numbers q := q.expressions.flatMap numbers
  beq_iff {q q'} h h' := by
    obtain ⟨qualifier, mediaType, expressions⟩ := q
    obtain ⟨qualifier', mediaType', expressions'⟩ := q'
    change (qualifier == qualifier' && mediaType == mediaType' && expressions == expressions') =
      true ↔ _
    simp [list_beq_iff_eq rfl h h', and_assoc]

/-! ### Headers -/

instance : Bare DeclarationHead where
  beq_iff _ _ := beq_iff_eq

instance : Bare MarginHead where
  beq_iff _ _ := beq_iff_eq

instance : Bare KeyframeHead where
  numbers h := h.offsets.flatMap numbers
  beq_iff {a b} ha hb := by
    obtain ⟨offsets⟩ := a
    obtain ⟨offsets'⟩ := b
    change (offsets == offsets') = true ↔ _
    simp [list_beq_iff_eq rfl ha hb]

instance : Bare StyleHead where
  bare h := { h with link := none }
  beq_iff {a b} _ _ := by
    change (a.selectors == b.selectors) = true ↔ _
    simp

instance : Bare MediaHead where
  bare h := { h with link := none }
  numbers h := h.queries.flatMap numbers
  beq_iff {a b} ha hb := by
    change (a.queries == b.queries) = true ↔ _
    simp [list_beq_iff_eq rfl ha hb]

instance : Bare KeyframesHead where
  bare h := { h with link := none }
  beq_iff {a b} _ _ := by
    change (a.name == b.name) = true ↔ _
    simp

instance : Bare FontFaceHead where
  bare _ := ⟨none⟩
  beq_iff _ _ := iff_of_true rfl rfl

instance : Bare ViewportHead where
  bare _ := ⟨none⟩
  beq_iff _ _ := iff_of_true rfl rfl

instance : Bare PageHead where
  bare h := { h with link := none }
  beq_iff {a b} _ _ := by
    change (a.name == b.name && a.pseudo == b.pseudo) = true ↔ _
    simp

/-- The number of a sheet is no part of what it says; its origin is. -/
instance : Bare SheetHead where
  bare h := ⟨⟨0, h.link.origin⟩⟩
  beq_iff {a b} _ _ := by
    change (a.link.origin == b.link.origin) = true ↔ _
    simp

/-! ### Items and rules of several sorts -/

instance : Bare PageItem where
  bare
    | .declaration d => .declaration (bare d)
    | .margin r => .margin (bare r)
  numbers
    | .declaration d => numbers d
    | .margin r => numbers r
  beq_iff {a b} ha hb := by
    cases a <;> cases b
    case declaration.declaration | margin.margin =>
      exact (Bare.beq_iff ha hb).trans (by simp)
    all_goals exact iff_of_false Bool.false_ne_true (by simp)
  digest_bare {a} h := by
    cases a with
    | declaration | margin => exact congrArg (Data.variant _) (Bare.digest_bare h)

instance : Bare Rule where
  bare
    | .style r => .style (bare r)
    | .media r => .media (bare r)
    | .keyframes r => .keyframes (bare r)
    | .fontFace r => .fontFace (bare r)
    | .page r => .page (bare r)
    | .viewport r => .viewport (bare r)
  numbers
    | .style r => numbers r
    | .media r => numbers r
    | .keyframes r => numbers r
    | .fontFace r => numbers r
    | .page r => numbers r
    | .viewport r => numbers r
  beq_iff {a b} ha hb := by
    cases a <;> cases b
    case style.style | media.media | keyframes.keyframes | fontFace.fontFace | page.page |
        viewport.viewport =>
      exact (Bare.beq_iff ha hb).trans (by simp)
    all_goals exact iff_of_false Bool.false_ne_true (by simp)
  digest_bare {a} h := by
    cases a with
    | style | media | keyframes | fontFace | page | viewport =>
      exact congrArg (Data.variant _) (Bare.digest_bare h)

/-! ### How bare values are written -/

/-- A block is written like one of other items if these are written like the ones of the block. -/
theorem block_map {α : Type} {written : Nat → α → String} {f : α → α}
    (h : ∀ depth a, written depth (f a) = written depth a) (depth : Nat) (front : String)
    (items : List α) :
    Layout.block written depth front (items.map f) = Layout.block written depth front items := by
  have hitems : (items.map f).map (written (depth + 1)) = items.map (written (depth + 1)) := by
    rw [List.map_map]
    exact List.map_congr_left fun a _ => h (depth + 1) a
  rw [Layout.block, Layout.block, hitems]

theorem Declaration.css_bare (depth : Nat) (d : Declaration) :
    css depth (bare d) = css depth d := by
  have hitems : (bare d).items = d.items := List.map_id d.items
  rw [css, css, valueCss, valueCss, hitems]
  rfl

theorem StyleRule.css_bare (depth : Nat) (r : StyleRule) : css depth (bare r) = css depth r :=
  block_map Declaration.css_bare depth _ r.items

theorem Keyframe.css_bare (depth : Nat) (k : Keyframe) : css depth (bare k) = css depth k :=
  block_map Declaration.css_bare depth _ k.items

theorem MediaRule.css_bare (depth : Nat) (r : MediaRule) : css depth (bare r) = css depth r :=
  block_map StyleRule.css_bare depth _ r.items

theorem KeyframesRule.css_bare (depth : Nat) (r : KeyframesRule) :
    css depth (bare r) = css depth r :=
  block_map Keyframe.css_bare depth _ r.items

theorem FontFaceRule.css_bare (depth : Nat) (r : FontFaceRule) : css depth (bare r) = css depth r :=
  block_map Declaration.css_bare depth _ r.items

theorem MarginRule.css_bare (depth : Nat) (r : MarginRule) : css depth (bare r) = css depth r :=
  block_map Declaration.css_bare depth _ r.items

theorem ViewportRule.css_bare (depth : Nat) (r : ViewportRule) : css depth (bare r) = css depth r :=
  block_map Declaration.css_bare depth _ r.items

theorem PageItem.css_bare (depth : Nat) (item : PageItem) :
    css depth (bare item) = css depth item := by
  cases item with
  | declaration d => exact Declaration.css_bare depth d
  | margin r => exact MarginRule.css_bare depth r

theorem PageRule.css_bare (depth : Nat) (r : PageRule) : css depth (bare r) = css depth r :=
  block_map PageItem.css_bare depth _ r.items

theorem Rule.css_bare (depth : Nat) (r : Rule) : css depth (bare r) = css depth r := by
  cases r with
  | style r => exact StyleRule.css_bare depth r
  | media r => exact MediaRule.css_bare depth r
  | keyframes r => exact KeyframesRule.css_bare depth r
  | fontFace r => exact FontFaceRule.css_bare depth r
  | page r => exact PageRule.css_bare depth r
  | viewport r => exact ViewportRule.css_bare depth r

theorem StyleSheet.css_bare (s : StyleSheet) : css (bare s) = css s := by
  have hitems : (s.items.map bare).map (Rule.css 0) = s.items.map (Rule.css 0) := by
    rw [List.map_map]
    exact List.map_congr_left fun r _ => Rule.css_bare 0 r
  exact congrArg String.join hitems

/-! ### All sorts of values -/

section LikeBare

variable {α κ : Type} [BEq α] [Digested α] [Renewable α] [Bare α]

/-- A value that can be reached: it has a history, and so have all numbers in it. -/
def Reachable (Made : α → Prop) (a : α) : Prop :=
  Made a ∧ NumbersMade (numbers a)

/-- **What it means that values are to each other as their bare values are.** -/
structure LikeBare (Made : α → Prop) (css : κ → α → String) : Prop where
  /-- To be equal is to be barely the same. -/
  beq_iff : ∀ {a b : α}, Reachable Made a → Reachable Made b → ((a == b) = true ↔ bare a = bare b)
  refl : ∀ {a : α}, Reachable Made a → (a == a) = true
  symm : ∀ {a b : α}, Reachable Made a → Reachable Made b → (a == b) = true → (b == a) = true
  trans : ∀ {a b c : α}, Reachable Made a → Reachable Made b → Reachable Made c →
    (a == b) = true → (b == c) = true → (a == c) = true
  /-- What is equal is hashed alike. -/
  digest_eq : ∀ {a b : α}, Reachable Made a → Reachable Made b →
    (a == b) = true → digest a = digest b
  /-- What differs in links and memories only is equal, is hashed alike and is written alike. -/
  of_bare_eq : ∀ {a b : α}, Reachable Made a → Reachable Made b → bare a = bare b →
    (a == b) = true ∧ digest a = digest b ∧ ∀ k, css k a = css k b

theorem likeBare {Made : α → Prop} {css : κ → α → String}
    (hupToDate : ∀ {a : α}, Made a → UpToDate a) (hcss : ∀ k a, css k (bare a) = css k a) :
    LikeBare Made css := by
  have hbeq : ∀ {a b : α}, Reachable Made a → Reachable Made b →
      ((a == b) = true ↔ bare a = bare b) :=
    fun ha hb => Bare.beq_iff ha.2 hb.2
  have hdigest : ∀ {a b : α}, Reachable Made a → Reachable Made b → bare a = bare b →
      digest a = digest b := by
    intro a b ha hb h
    rw [← Bare.digest_bare (hupToDate ha.1), h, Bare.digest_bare (hupToDate hb.1)]
  refine ⟨hbeq, fun ha => (hbeq ha ha).mpr rfl, ?_, ?_, ?_, ?_⟩
  · intro a b ha hb h
    exact (hbeq hb ha).mpr ((hbeq ha hb).mp h).symm
  · intro a b c ha hb hc hab hbc
    exact (hbeq ha hc).mpr (((hbeq ha hb).mp hab).trans ((hbeq hb hc).mp hbc))
  · intro a b ha hb h
    exact hdigest ha hb ((hbeq ha hb).mp h)
  · intro a b ha hb h
    refine ⟨(hbeq ha hb).mpr h, hdigest ha hb h, fun k => ?_⟩
    rw [← hcss k a, h, hcss k b]

end LikeBare

/-- Holders of declarations. -/
theorem likeBare_holder {η : Type} [BEq η] [HasData η] [Bare η] [ItemPolicy η Declaration]
    [EntersUnchanged η Declaration] {css : Nat → Container η Declaration → String}
    (hcss : ∀ depth c, css depth (bare c) = css depth c) :
    LikeBare (Container.Made Declaration.Made) css :=
  likeBare (Container.Made.isUpToDate Declaration.Made.upToDate) hcss

/-- **Equality, hashing and writing ignore links, memories and history**, in terms, selectors,
containers of every sort and style sheets. -/
theorem equality_ignores_links :
    LikeBare (fun _ : Term => True) (fun level t => t.css level) ∧
      LikeBare (fun _ : CompoundSelector => True) (fun _ : Unit => CompoundSelector.css) ∧
      LikeBare (fun _ : ComplexSelector => True) (fun _ : Unit => ComplexSelector.css) ∧
      LikeBare Declaration.Made Declaration.css ∧
      LikeBare (Container.Made Declaration.Made) StyleRule.css ∧
      LikeBare (Container.Made (Container.Made Declaration.Made)) MediaRule.css ∧
      LikeBare (Container.Made Declaration.Made) Keyframe.css ∧
      LikeBare (Container.Made (Container.Made Declaration.Made)) KeyframesRule.css ∧
      LikeBare (Container.Made Declaration.Made) FontFaceRule.css ∧
      LikeBare (Container.Made Declaration.Made) MarginRule.css ∧
      LikeBare PageItem.Made PageItem.css ∧
      LikeBare (Container.Made PageItem.Made) PageRule.css ∧
      LikeBare (Container.Made Declaration.Made) ViewportRule.css ∧
      LikeBare Rule.Made Rule.css ∧
      LikeBare StyleSheet.Made (fun _ : Unit => StyleSheet.css) := by
  have hholder {η : Type} [HasData η] [ItemPolicy η Declaration] [EntersUnchanged η Declaration]
      {c : Container η Declaration} (hc : c.Made Declaration.Made) : UpToDate c :=
    Container.Made.isUpToDate Declaration.Made.upToDate hc
  exact ⟨likeBare (fun _ => trivial) fun _ _ => rfl, likeBare (fun _ => trivial) fun _ _ => rfl,
    likeBare (fun _ => trivial) fun _ _ => rfl,
    likeBare Declaration.Made.upToDate Declaration.css_bare,
    likeBare_holder StyleRule.css_bare,
    likeBare (Container.Made.isUpToDate hholder) MediaRule.css_bare,
    likeBare_holder Keyframe.css_bare,
    likeBare (Container.Made.isUpToDate hholder) KeyframesRule.css_bare,
    likeBare_holder FontFaceRule.css_bare,
    likeBare_holder MarginRule.css_bare,
    likeBare PageItem.Made.upToDate PageItem.css_bare,
    likeBare (Container.Made.isUpToDate PageItem.Made.upToDate) PageRule.css_bare,
    likeBare_holder ViewportRule.css_bare,
    likeBare Rule.Made.upToDate Rule.css_bare,
    likeBare (Container.Made.isUpToDate Rule.Made.upToDate) fun _ => StyleSheet.css_bare⟩

namespace StyleSheet

/-- A declaration that was not asked for anything. -/
def freshColor : Declaration :=
  (Container.empty ⟨"color", false⟩ : Declaration).push ⟨none, .ident "red"⟩

/-- The rules of `askedSheet` in a sheet of another number, which remembers nothing. -/
def freshSheet : StyleSheet :=
  (make 1 .author).push (.media (rulesOf freshColor))

theorem made_freshColor : freshColor.Made :=
  (Container.Made.empty _).attempt (e := .push _) (by simp)

theorem reachable_askedSheet : Reachable Made askedSheet := by
  refine ⟨Container.Made.askedAt (Container.Made.attempt (.empty _) (e := .push _) ?_) [], ?_⟩
  · have hcolor : askedColor.Made := made_freshColor.askedAt []
    simpa [Edit.incoming] using made_rulesOf hcolor
  · intro n hn
    exact absurd hn List.not_mem_nil

theorem reachable_freshSheet : Reachable Made freshSheet := by
  refine ⟨Container.Made.attempt (.empty _) (e := .push _) ?_, ?_⟩
  · simpa [Edit.incoming] using made_rulesOf made_freshColor
  · intro n hn
    exact absurd hn List.not_mem_nil

/-- Both the links and the memories of the two sheets differ. -/
theorem askedSheet_like_freshSheet :
    Container.remembered askedSheet ≠ Container.remembered freshSheet ∧
      askedSheet.link ≠ freshSheet.link ∧
      (askedSheet == freshSheet) = true ∧ digest askedSheet = digest freshSheet ∧
      askedSheet.css = freshSheet.css := by
  obtain ⟨-, -, -, -, -, -, -, -, -, -, -, -, -, -, hsheets⟩ := equality_ignores_links
  obtain ⟨hequal, hhashed, hwritten⟩ :=
    hsheets.of_bare_eq reachable_askedSheet reachable_freshSheet rfl
  exact ⟨by simp [askedSheet, freshSheet, Container.askedAt, Container.warmed, Container.push,
    Container.withItems, make, Container.empty], by decide, hequal, hhashed, hwritten ()⟩

end StyleSheet

end CssModel
