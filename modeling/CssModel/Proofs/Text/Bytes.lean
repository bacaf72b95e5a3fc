import CssModel.Text.Bytes
import Mathlib

/-!
# Pieces of a text

Offsets that are sums of the sizes of whole characters are good: what stands between two such
offsets is cut out as it is. Where every character is one byte all offsets up to the end are of this
kind, and they count characters.

## Main results

* `CssModel.Bytes.cut_append`: a piece between two others
* `CssModel.Bytes.cut_eq`: pieces of a text whose characters are one byte each
-/

namespace CssModel.Bytes

/-- A piece that stands between two others is cut out whole. -/
theorem cut_append (front piece back : String) :
    cut (front ++ (piece ++ back)) front.utf8ByteSize
      (front.utf8ByteSize + piece.utf8ByteSize) = .ok piece := by
  have hstart : (String.Pos.Raw.mk front.utf8ByteSize).IsValid (front ++ (piece ++ back)) :=
    String.Pos.Raw.isValid_iff_exists_append.mpr ⟨front, piece ++ back, rfl, rfl⟩
  have hstop : (String.Pos.Raw.mk (front.utf8ByteSize + piece.utf8ByteSize)).IsValid
      (front ++ (piece ++ back)) := by
    refine String.Pos.Raw.isValid_iff_exists_append.mpr ⟨front ++ piece, back, ?_, ?_⟩
    · exact String.append_assoc.symm
    · rw [String.Pos.Raw.ext_iff]
      exact String.utf8ByteSize_append.symm
  have hrange : front.utf8ByteSize ≤ front.utf8ByteSize + piece.utf8ByteSize ∧
      front.utf8ByteSize + piece.utf8ByteSize ≤ (front ++ (piece ++ back)).utf8ByteSize := by
    rw [String.utf8ByteSize_append, String.utf8ByteSize_append]
    omega
  have hbehind : (front.toByteArray ++ (piece.toByteArray ++ back.toByteArray)).extract
      (front.toByteArray.size + 0) (front.toByteArray.size + piece.toByteArray.size) =
        (piece.toByteArray ++ back.toByteArray).extract 0 piece.toByteArray.size :=
    ByteArray.extract_append_size_add
  rw [cut, if_pos hrange, dif_pos ⟨hstart, hstop⟩, Except.ok.injEq, ← String.toByteArray_inj,
    String.toByteArray_extract, String.toByteArray_append, String.toByteArray_append]
  exact hbehind.trans (ByteArray.extract_append_eq_left rfl)

/-- The character has two bytes, and the cut is between them. -/
example : cut "é" 0 1 = .error .insideCharacter := by decide

section Single

variable {cs : List Char} (h : ∀ c ∈ cs, c.utf8Size = 1)

include h

theorem utf8ByteSize_ofList : (String.ofList cs).utf8ByteSize = cs.length := by
  induction cs with
  | nil => rfl
  | cons c cs ih =>
    obtain ⟨hc, hcs⟩ := List.forall_mem_cons.mp h
    rw [String.ofList_cons, String.utf8ByteSize_append, String.utf8ByteSize_singleton, hc, ih hcs,
      List.length_cons, Nat.add_comm]

/-- **Where every character is one byte, offsets are places.** -/
theorem cut_eq {start count : Nat} (hstop : start + count ≤ cs.length) :
    cut (String.ofList cs) start (start + count) =
      .ok (String.ofList ((cs.drop start).take count)) := by
  have hfront : (String.ofList (cs.take start)).utf8ByteSize = start := by
    rw [utf8ByteSize_ofList fun c hc => h c (List.mem_of_mem_take hc), List.length_take]
    omega
  have hpiece : (String.ofList ((cs.drop start).take count)).utf8ByteSize = count := by
    rw [utf8ByteSize_ofList fun c hc => h c (List.mem_of_mem_drop (List.mem_of_mem_take hc)),
      List.length_take, List.length_drop]
    omega
  have hparts : cs.take start ++ ((cs.drop start).take count ++ (cs.drop start).drop count) =
      cs := by
    rw [List.take_append_drop, List.take_append_drop]
  have hcut := cut_append (String.ofList (cs.take start))
    (String.ofList ((cs.drop start).take count)) (String.ofList ((cs.drop start).drop count))
  rwa [← String.ofList_append, ← String.ofList_append, hparts, hfront, hpiece] at hcut

end Single

end CssModel.Bytes
