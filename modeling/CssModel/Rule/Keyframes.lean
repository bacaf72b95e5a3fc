import CssModel.Rule.Declaration
import CssModel.Rule.Link

/-!
# Keyframes

An animation is a sequence of keyframes. A keyframe says at which percentages of the animation its
declarations hold, and there is at least one.

## Main definitions

* `CssModel.Keyframe`, `CssModel.Keyframe.make`, `CssModel.Keyframe.withOffsets`
* `CssModel.KeyframesRule`, `CssModel.KeyframesRule.make`
-/

namespace CssModel

/-- The places of a keyframe in the animation. -/
structure KeyframeHead where
  offsets : List Term
  deriving DecidableEq

instance : BEq KeyframeHead := ⟨fun a b => a.offsets == b.offsets⟩

instance : HasData KeyframeHead := ⟨fun p h => form p h.offsets⟩

instance : ItemPolicy KeyframeHead Declaration where

/-- Declarations at places of an animation. -/
abbrev Keyframe := Container KeyframeHead Declaration

/-- Whether the term is a percentage. -/
def Term.isPercentage (t : Term) : Bool :=
  match t.numeric? with
  | some n => n.kind = .percent
  | none => false

namespace Keyframe

/-- The offsets, if there is at least one and all are percentages. -/
def checkOffsets (offsets : List Term) : Except Failure (List Term) :=
  if offsets.isEmpty then .error (.invalidArgument .noKeyframeOffset)
  else if offsets.all Term.isPercentage then .ok offsets
  else .error (.invalidArgument .keyframeOffsetKind)

/-- A keyframe without declarations. -/
def make (offsets : List Term) : Except Failure Keyframe :=
  (checkOffsets offsets).map fun offsets => .empty ⟨offsets⟩

/-- The declarations at other places. -/
def withOffsets (k : Keyframe) (offsets : List Term) : Except Failure Keyframe :=
  (checkOffsets offsets).map fun offsets => { k with header.offsets := offsets }

/-- An offset as it is written, without what joins it to the one before. -/
def offsetCss (offset : Term) : String :=
  (offset.withOperator none).css .backslash

/-- The keyframe as it is written. -/
def css (depth : Nat) (k : Keyframe) : String :=
  Layout.block Declaration.css depth (", ".intercalate (k.header.offsets.map offsetCss)) k.items

end Keyframe

/-- The name of an animation, and the style sheet that the rule belongs to. -/
structure KeyframesHead where
  name : String
  link : Option SheetLink
  deriving Repr

instance : BEq KeyframesHead := ⟨fun a b => a.name == b.name⟩

instance : HasData KeyframesHead := ⟨fun p h => form p h.name⟩

instance : ItemPolicy KeyframesHead Keyframe where

/-- The keyframes of an animation. -/
abbrev KeyframesRule := Container KeyframesHead Keyframe

namespace KeyframesRule

/-- The name as it is held: any text but the empty one. -/
def checkName (name : String) : Except Failure String :=
  if name.isEmpty then .error (.invalidArgument .emptyKeyframesName) else .ok name

/-- A rule without keyframes that belongs to no style sheet. -/
def make (name : String) : Except Failure KeyframesRule :=
  (checkName name).map fun name => .empty ⟨name, none⟩

/-- The rule as a part of a style sheet, or of none. -/
def withLink (link : Option SheetLink) (r : KeyframesRule) : KeyframesRule :=
  { r with header.link := link }

/-- The rule as it is written; the name stands as it was given. -/
def css (depth : Nat) (r : KeyframesRule) : String :=
  Layout.block Keyframe.css depth ("@keyframes " ++ r.header.name) r.items

end KeyframesRule

end CssModel
