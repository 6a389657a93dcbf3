import Mathlib.Data.List.Basic

/-!
# Cutting UTF-8 streams

A stream of bytes that encodes a text arrives in chunks. Each chunk is valid
UTF-8 by itself exactly when no cut falls inside a character
(`forall_isValidUTF8_iff`); texts of one-byte characters can be cut anywhere
(`cutsBetweenChars_of_ascii`).
-/

namespace Esystem

/-- What the chunks hold, in order. -/
def concat : List ByteArray → ByteArray
  | [] => ByteArray.empty
  | c :: cs => c ++ concat cs

theorem concat_append (cs ds : List ByteArray) :
    concat (cs ++ ds) = concat cs ++ concat ds := by
  induction cs with
  | nil => exact ByteArray.empty_append.symm
  | cons c cs ih =>
    show c ++ concat (cs ++ ds) = c ++ concat cs ++ concat ds
    rw [ih, ByteArray.append_assoc]

theorem concat_singleton (c : ByteArray) : concat [c] = c :=
  ByteArray.append_empty

/-- Every cut between two chunks lies between two characters of `text`. -/
def CutsBetweenChars (text : List Char) (chunks : List ByteArray) : Prop :=
  ∀ before after, chunks = before ++ after → ∃ t, t <+: text ∧ concat before = t.utf8Encode

/-- Chunks that are valid UTF-8 hold valid UTF-8 together. -/
theorem isValidUTF8_concat {chunks : List ByteArray} (h : ∀ c ∈ chunks, c.IsValidUTF8) :
    (concat chunks).IsValidUTF8 := by
  induction chunks with
  | nil => exact ByteArray.isValidUTF8_empty
  | cons c cs ih =>
    have htail := ih fun d hd => h d (List.mem_cons_of_mem c hd)
    exact (h c List.mem_cons_self).append htail

/-- **Chunks of a text are valid UTF-8 one by one exactly when the cuts lie
between characters.** -/
theorem forall_isValidUTF8_iff {text : List Char} {chunks : List ByteArray}
    (htext : concat chunks = text.utf8Encode) :
    (∀ c ∈ chunks, c.IsValidUTF8) ↔ CutsBetweenChars text chunks := by
  constructor
  · intro h before after hcut
    have hvalid : (concat before).IsValidUTF8 := isValidUTF8_concat fun c hc =>
      h c (by rw [hcut]; exact List.mem_append_left after hc)
    obtain ⟨t, ht⟩ := hvalid
    refine ⟨t, List.isPrefix_of_utf8Encode_append_eq_utf8Encode (concat after) ?_, ht⟩
    rw [← ht, ← concat_append, ← hcut, htext]
  · intro h c hc
    obtain ⟨before, after, hcut⟩ := List.append_of_mem hc
    obtain ⟨t, -, ht⟩ := h before (c :: after) hcut
    obtain ⟨u, -, hu⟩ := h (before ++ [c]) after (by rw [hcut, List.append_assoc]; rfl)
    rw [concat_append, concat_singleton, ht] at hu
    -- the characters up to the end of `c` extend those up to its start
    obtain ⟨v, rfl⟩ := List.isPrefix_of_utf8Encode_append_eq_utf8Encode c hu
    rw [List.utf8Encode_append, ByteArray.append_right_inj] at hu
    exact ⟨v, hu⟩

/-! ## Texts of one-byte characters -/

/-- All characters are encoded in one byte. -/
def Ascii (text : List Char) : Prop :=
  ∀ c ∈ text, c.utf8Size = 1

instance (text : List Char) : Decidable (Ascii text) :=
  List.decidableBAll (fun c : Char => c.utf8Size = 1) text

theorem Ascii.size {text : List Char} (h : Ascii text) : text.utf8Encode.size = text.length := by
  induction text with
  | nil => rfl
  | cons c text ih =>
    have htail := ih fun d hd => h d (List.mem_cons_of_mem c hd)
    rw [List.utf8Encode_cons, ByteArray.size_append, htail, List.utf8Encode_singleton,
      List.size_toByteArray, String.length_utf8EncodeChar, h c List.mem_cons_self,
      List.length_cons, Nat.add_comm]

/-- A text of one-byte characters can be cut anywhere. -/
theorem cutsBetweenChars_of_ascii {text : List Char} {chunks : List ByteArray}
    (h : Ascii text) (htext : concat chunks = text.utf8Encode) :
    CutsBetweenChars text chunks := by
  intro before after hcut
  let n := (concat before).size
  have hsplit : concat before ++ concat after
      = (text.take n).utf8Encode ++ (text.drop n).utf8Encode := by
    rw [← concat_append, ← hcut, htext, ← List.utf8Encode_append, List.take_append_drop]
  have hle : n ≤ text.length := by
    rw [← h.size, ← htext, hcut, concat_append, ByteArray.size_append]
    exact Nat.le_add_right n _
  have hsize : (concat before).size = (text.take n).utf8Encode.size := by
    have htake : Ascii (text.take n) := fun c hc => h c (List.mem_of_mem_take hc)
    rw [htake.size, List.length_take, Nat.min_eq_left hle]
  exact ⟨text.take n, List.take_prefix n text, ByteArray.append_inj_left hsplit hsize⟩

end Esystem
