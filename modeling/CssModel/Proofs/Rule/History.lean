import CssModel.Proofs.Rule.Content
import CssModel.Rule.Sheet

/-!
# The history of a container

What a container gives as its content says nothing of its history: of what it was asked before, of
the edits that led to its items, of those that failed, and of the style sheets that its items were
linked to on the way. `Made` is the history: a container comes from an empty one by edits, by
changes of items that are reached in place, by changes of its header and by questions, in any order,
where all items that come into it have such a history as well. This is said once for one level, and
then for each sort of rule down to the terms.

Values do not change, so a copy has the history of what it is a copy of. What an edit hands back,
and what is taken out of a container by reading, can be used again: both have a history, too.

## Main definitions

* `CssModel.Container.Made`: what one level can come to
* `CssModel.Declaration.Made`, `CssModel.PageItem.Made`, `CssModel.Rule.Made`,
  `CssModel.StyleSheet.Made`

## Main results

* `CssModel.Container.Made.isUpToDate`: no step lets a container remember a wrong content
* `CssModel.StyleSheet.Made.isUpToDate_sheet`: the same on all levels of a style sheet at once
* `CssModel.StyleSheet.Made.withOrigin`, `CssModel.StyleSheet.Made.handedBack`
-/

namespace CssModel

open Renewable (UpToDate)

/-! ### One level -/

namespace Container

variable {η α : Type} [Digested α] [Renewable α] [ItemPolicy η α] {Item : α → Prop}
  {c : Container η α}

/-- The containers that can be made of certain items. -/
inductive Made (Item : α → Prop) : Container η α → Prop
  | empty (header : η) : Made Item (empty header)
  /-- An edit, also one that fails. -/
  | attempt {c : Container η α} {e : Edit α} (h : Made Item c) (he : ∀ a ∈ e.incoming, Item a) :
      Made Item (c.attempt e).2
  /-- Items that are reached in place may become any items; nothing enters and nothing leaves. -/
  | inPlace {c : Container η α} {items : List α} (h : Made Item c) (hitems : ∀ a ∈ items, Item a) :
      Made Item (c.withItems items)
  | withHeader {c : Container η α} (h : Made Item c) (header : η) : Made Item { c with header }
  /-- The container, or one in it, is asked for its content. -/
  | askedAt {c : Container η α} (h : Made Item c) (path : List Nat) : Made Item (c.askedAt path)

/-- **No step lets a container remember a wrong content.** -/
theorem Made.isUpToDate [EntersUnchanged η α] (hItem : ∀ {a : α}, Item a → UpToDate a)
    (h : c.Made Item) : c.IsUpToDate := by
  induction h with
  | empty header => exact isUpToDate_withItems (c := Container.empty header) (by simp)
  | attempt _ he ih => exact isUpToDate_attempt ih fun a ha => hItem (he a ha)
  | inPlace _ hitems => exact isUpToDate_withItems fun a ha => hItem (hitems a ha)
  | withHeader _ header ih => exact ih.withHeader header
  | askedAt _ path ih => exact ih.askedAt path

/-- What is true of the items is not lost on the way into the container, in it and out of it. -/
structure Kept (η : Type) {α : Type} [Digested α] [Renewable α] [ItemPolicy η α]
    (Item : α → Prop) : Prop where
  enter : ∀ (header : η) {a : α}, Item a → Item (ItemPolicy.enter header a)
  leave : ∀ (header : η) {a : α}, Item a → Item (ItemPolicy.leave header a)
  askedAt : ∀ (path : List Nat) {a : α}, Item a → Item (Renewable.askedAt path a)

theorem Made.forall_mem (hkept : Kept η Item) (h : c.Made Item) : ∀ a ∈ c.items, Item a := by
  induction h with
  | empty header => simp [Container.empty]
  | @attempt c _ _ he ih => exact forall_mem_attempt ih fun a ha => hkept.enter c.header (he a ha)
  | inPlace _ hitems => exact hitems
  | withHeader _ header ih => exact ih
  | askedAt _ path ih => exact forall_mem_askedAt hkept.askedAt ih path

/-- What an edit hands back is an item like those that come in. -/
theorem Made.handedBack (hkept : Kept η Item) (h : c.Made Item) {e : Edit α} {a : α}
    (ha : (c.attempt e).1 = .ok (some a)) : Item a := by
  obtain ⟨old, hold, rfl⟩ := mem_of_attempt_eq_ok ha
  exact hkept.leave c.header (h.forall_mem hkept old hold)

end Container

open Container (Kept)

/-! ### Headers that have no say in what enters -/

instance : EntersUnchanged DeclarationHead Term where

instance : EntersUnchanged StyleHead Declaration where

instance : EntersUnchanged KeyframeHead Declaration where

instance : EntersUnchanged KeyframesHead Keyframe where

instance : EntersUnchanged FontFaceHead Declaration where

instance : EntersUnchanged MarginHead Declaration where

instance : EntersUnchanged ViewportHead Declaration where

/-! ### Declarations and the rules that hold them -/

/-- The declarations that can be made, of any terms. -/
def Declaration.Made (d : Declaration) : Prop :=
  Container.Made (fun _ => True) d

theorem Declaration.Made.upToDate {d : Declaration} (h : d.Made) : UpToDate d :=
  Container.Made.isUpToDate (fun _ => trivial) h

/-- A style rule is hashed to its selectors and its content; the link is no part of them. -/
instance : EntersUnchanged MediaHead StyleRule where
  upToDate_enter _ _ h := h.withHeader _
  digest_enter _ _ _ := rfl

/-- Items of a page are declarations or hold them. -/
instance : Renewable PageItem where
  renewed
    | .declaration d => .declaration (Renewable.renewed d)
    | .margin r => .margin (Renewable.renewed r)
  askedAt path
    | .declaration d => .declaration (d.askedAt path)
    | .margin r => .margin (r.askedAt path)
  UpToDate
    | .declaration d => UpToDate d
    | .margin r => UpToDate r
  askedAt_nil item := by cases item <;> rfl
  renewed_askedAt path item := by
    cases item with
    | declaration d => exact congrArg PageItem.declaration (Renewable.renewed_askedAt path d)
    | margin r => exact congrArg PageItem.margin (Renewable.renewed_askedAt path r)
  upToDate_askedAt path item h := by
    cases item with
    | declaration | margin => exact Renewable.upToDate_askedAt path h
  upToDate_renewed item := by
    cases item with
    | declaration | margin => exact Renewable.upToDate_renewed _
  digest_renewed {item} h := by
    cases item with
    | declaration | margin => exact congrArg (Data.variant _) (Renewable.digest_renewed h)

instance : EntersUnchanged PageHead PageItem where

/-- The items of a page that can be made. -/
def PageItem.Made : PageItem → Prop
  | .declaration d => d.Made
  | .margin r => r.Made Declaration.Made

theorem PageItem.Made.upToDate {item : PageItem} (h : item.Made) : UpToDate item := by
  cases item with
  | declaration d => exact Declaration.Made.upToDate h
  | margin r => exact Container.Made.isUpToDate Declaration.Made.upToDate h

/-! ### Rules of every sort -/

/-- A rule is one of six containers. -/
instance : Renewable Rule where
  renewed
    | .style r => .style (Renewable.renewed r)
    | .media r => .media (Renewable.renewed r)
    | .keyframes r => .keyframes (Renewable.renewed r)
    | .fontFace r => .fontFace (Renewable.renewed r)
    | .page r => .page (Renewable.renewed r)
    | .viewport r => .viewport (Renewable.renewed r)
  askedAt path
    | .style r => .style (r.askedAt path)
    | .media r => .media (r.askedAt path)
    | .keyframes r => .keyframes (r.askedAt path)
    | .fontFace r => .fontFace (r.askedAt path)
    | .page r => .page (r.askedAt path)
    | .viewport r => .viewport (r.askedAt path)
  UpToDate
    | .style r => UpToDate r
    | .media r => UpToDate r
    | .keyframes r => UpToDate r
    | .fontFace r => UpToDate r
    | .page r => UpToDate r
    | .viewport r => UpToDate r
  askedAt_nil r := by cases r <;> rfl
  renewed_askedAt path r := by
    cases r with
    | style r => exact congrArg Rule.style (Renewable.renewed_askedAt path r)
    | media r => exact congrArg Rule.media (Renewable.renewed_askedAt path r)
    | keyframes r => exact congrArg Rule.keyframes (Renewable.renewed_askedAt path r)
    | fontFace r => exact congrArg Rule.fontFace (Renewable.renewed_askedAt path r)
    | page r => exact congrArg Rule.page (Renewable.renewed_askedAt path r)
    | viewport r => exact congrArg Rule.viewport (Renewable.renewed_askedAt path r)
  upToDate_askedAt path r h := by
    cases r with
    | style | media | keyframes | fontFace | page | viewport =>
      exact Renewable.upToDate_askedAt path h
  upToDate_renewed r := by
    cases r with
    | style | media | keyframes | fontFace | page | viewport =>
      exact Renewable.upToDate_renewed _
  digest_renewed {r} h := by
    cases r with
    | style | media | keyframes | fontFace | page | viewport =>
      exact congrArg (Data.variant _) (Renewable.digest_renewed h)

theorem MediaRule.withLink_eq (link : Option SheetLink) (r : MediaRule) :
    r.withLink link = Container.ofItems { r.header with link } r.items :=
  (Container.ofItems_eq _ _).symm

theorem Rule.upToDate_withLink (link : Option SheetLink) {r : Rule} (h : UpToDate r) :
    UpToDate (r.withLink link) := by
  cases r with
  | media r =>
    have hmedia : Container.IsUpToDate r := h
    rw [Rule.withLink, MediaRule.withLink_eq]
    exact Container.isUpToDate_ofItems _ hmedia.2
  | style | keyframes | fontFace | page | viewport => exact Container.IsUpToDate.withHeader h _

/-- A link is no part of the digest of a rule. A media rule forgets its content when it is linked,
but then comes to the same one. -/
theorem Rule.digest_withLink (link : Option SheetLink) {r : Rule} (h : UpToDate r) :
    Digested.digest (r.withLink link) = Digested.digest r := by
  cases r with
  | media r =>
    have hmedia : Container.IsUpToDate r := h
    have hcontent := (hmedia.1 { r.header with link }).1
    rw [Rule.withLink, MediaRule.withLink_eq]
    rw [Container.ofItems_eq] at hcontent ⊢
    exact congrArg
      (fun content => Data.variant "media" (.list [Digested.digest r.header, content]))
      hcontent.symm
  | style | keyframes | fontFace | page | viewport => rfl

instance : EntersUnchanged SheetHead Rule where
  upToDate_enter header _ h := Rule.upToDate_withLink (some header.link) h
  digest_enter header _ h := Rule.digest_withLink (some header.link) h

/-- The rules that can be made. -/
def Rule.Made : Rule → Prop
  | .style r => r.Made Declaration.Made
  | .media r => r.Made (Container.Made Declaration.Made)
  | .keyframes r => r.Made (Container.Made Declaration.Made)
  | .fontFace r => r.Made Declaration.Made
  | .page r => r.Made PageItem.Made
  | .viewport r => r.Made Declaration.Made

theorem Rule.Made.upToDate {r : Rule} (h : r.Made) : UpToDate r := by
  have hholder {η : Type} [HasData η] [ItemPolicy η Declaration] [EntersUnchanged η Declaration]
      {c : Container η Declaration} (hc : c.Made Declaration.Made) : UpToDate c :=
    Container.Made.isUpToDate Declaration.Made.upToDate hc
  cases r with
  | style | fontFace | viewport => exact hholder h
  | media | keyframes => exact Container.Made.isUpToDate hholder h
  | page => exact Container.Made.isUpToDate PageItem.Made.upToDate h

theorem StyleRule.kept_made :
    Kept MediaHead (Container.Made Declaration.Made : StyleRule → Prop) where
  enter _ _ h := h.withHeader _
  leave _ _ h := h.withHeader _
  askedAt path _ h := h.askedAt path

theorem Rule.Made.withLink {r : Rule} (h : r.Made) (link : Option SheetLink) :
    (r.withLink link).Made := by
  cases r with
  | media r =>
    refine Container.Made.inPlace (Container.Made.withHeader h _) fun x hx => ?_
    obtain ⟨old, hold, rfl⟩ := List.mem_map.mp hx
    exact (Container.Made.forall_mem StyleRule.kept_made h old hold).withHeader _
  | style | keyframes | fontFace | page | viewport => exact Container.Made.withHeader h _

theorem Rule.kept_made : Kept SheetHead Rule.Made where
  enter header _ h := h.withLink (some header.link)
  leave _ _ h := h.withLink none
  askedAt path r h := by
    cases r with
    | style | media | keyframes | fontFace | page | viewport => exact Container.Made.askedAt h path

/-! ### Style sheets -/

/-- The style sheets that can be made. -/
def StyleSheet.Made (s : StyleSheet) : Prop :=
  Container.Made Rule.Made s

namespace StyleSheet

variable {s : StyleSheet}

theorem Made.withOrigin (h : s.Made) (origin : Origin) : (s.withOrigin origin).Made := by
  refine Container.Made.inPlace (Container.Made.withHeader h _) fun x hx => ?_
  obtain ⟨old, hold, rfl⟩ := List.mem_map.mp hx
  exact (Container.Made.forall_mem Rule.kept_made h old hold).withLink _

theorem Made.handedBack (h : s.Made) {e : Edit Rule} {r : Rule}
    (hr : (Container.attempt s e).1 = .ok (some r)) : r.Made :=
  Container.Made.handedBack Rule.kept_made h hr

/-- **No container in a style sheet remembers a wrong content.** On every level the content is that
of a new container of the same items, whatever came before, and so it is in what an edit of the
sheet hands back. -/
theorem Made.isUpToDate_sheet (h : s.Made) :
    s.IsUpToDate ∧
      ∀ {e : Edit Rule} {r : Rule}, (Container.attempt s e).1 = .ok (some r) → UpToDate r :=
  ⟨Container.Made.isUpToDate Rule.Made.upToDate h, fun hr => (h.handedBack hr).upToDate⟩

/-- A declaration that was asked for its content. -/
def askedColor : Declaration :=
  ((Container.empty ⟨"color", false⟩ : Declaration).push ⟨none, .ident "red"⟩).askedAt []

/-- A media rule with one style rule, which holds one declaration. -/
def rulesOf (d : Declaration) : MediaRule :=
  (MediaRule.make []).push ((StyleRule.make []).push d)

theorem made_rulesOf {d : Declaration} (hd : d.Made) : (Rule.media (rulesOf d)).Made := by
  have hstyle : Container.Made Declaration.Made ((StyleRule.make []).push d) :=
    (Container.Made.empty _).attempt (e := .push d) (by simpa [Edit.incoming] using hd)
  exact (Container.Made.empty _).attempt (e := .push _) (by simpa [Edit.incoming] using hstyle)

/-- A sheet that remembers its content on all levels. -/
def askedSheet : StyleSheet :=
  ((make 0 .author).push (.media (rulesOf askedColor))).askedAt []

/-- The sheet after a second term was added to the declaration in its place, three levels below, and
the origin changed. -/
def changedSheet : StyleSheet :=
  withOrigin
    (askedSheet.withItem 0 (.media (rulesOf (askedColor.push ⟨some .comma, .ident "blue"⟩)))) .user

theorem made_changedSheet : changedSheet.Made := by
  have hone : askedColor.Made :=
    ((Container.Made.empty _).attempt (e := .push _) (by simp)).askedAt []
  have htwo : Declaration.Made (askedColor.push ⟨some .comma, .ident "blue"⟩) :=
    Container.Made.attempt hone (e := .push _) (by simp)
  have hasked : askedSheet.Made :=
    ((Container.Made.empty _).attempt (e := .push _)
      (by simpa [Edit.incoming] using made_rulesOf hone)).askedAt []
  refine Made.withOrigin (Container.Made.inPlace hasked fun r hr => ?_) .user
  obtain hr | rfl := List.mem_or_eq_of_mem_set hr
  · exact Container.Made.forall_mem Rule.kept_made hasked r hr
  · exact made_rulesOf htwo

theorem isUpToDate_changedSheet :
    changedSheet.Made ∧ changedSheet.IsUpToDate ∧
      Container.content askedSheet ≠ Container.content changedSheet :=
  ⟨made_changedSheet, made_changedSheet.isUpToDate_sheet.1, by decide⟩

end StyleSheet

end CssModel
