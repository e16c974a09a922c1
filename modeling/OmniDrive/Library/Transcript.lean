import Mathlib.Data.List.Basic
import OmniDrive.Library.ByteFields

/-!
# Length-prefixed transcripts

A transcript is a list of byte strings, each behind its length. Where every field fits the prefix
for its length, no byte can move from one field to the next: different lists of fields have
different transcripts.
-/

namespace Transcripts

open ByteFields

/-- A field behind its length in `n` bytes. -/
def frame (n : ℕ) (field : List UInt8) : List UInt8 := toBe n field.length ++ field

/-- The fields one after another, each behind its length. -/
def transcript (n : ℕ) (fields : List (List UInt8)) : List UInt8 := (fields.map (frame n)).flatten

/-- The lengths of the fields fit `n` bytes. -/
def Fits (n : ℕ) (fields : List (List UInt8)) : Prop := ∀ field ∈ fields, field.length < 256 ^ n

@[simp] theorem transcript_nil (n : ℕ) : transcript n [] = [] := rfl

@[simp] theorem transcript_cons (n : ℕ) (field : List UInt8) (rest : List (List UInt8)) :
    transcript n (field :: rest) = frame n field ++ transcript n rest := rfl

@[simp] theorem length_frame (n : ℕ) (field : List UInt8) :
    (frame n field).length = n + field.length := by
  rw [frame, List.length_append, length_toBe]

/-- A field is told apart from what stands behind it. -/
theorem frame_append_inj {n : ℕ} {a b restA restB : List UInt8} (ha : a.length < 256 ^ n)
    (hb : b.length < 256 ^ n) (h : frame n a ++ restA = frame n b ++ restB) :
    a = b ∧ restA = restB := by
  rw [frame, frame, List.append_assoc, List.append_assoc] at h
  obtain ⟨hhead, hbehind⟩ := List.append_inj h (by rw [length_toBe, length_toBe])
  have hlength : a.length = b.length := by
    rw [← ofBe_toBe_of_lt ha, ← ofBe_toBe_of_lt hb, hhead]
  exact List.append_inj hbehind hlength

/-- A transcript determines its fields. -/
theorem transcript_inj {n : ℕ} (hn : 0 < n) {fields fields' : List (List UInt8)}
    (hfits : Fits n fields) (hfits' : Fits n fields')
    (h : transcript n fields = transcript n fields') : fields = fields' := by
  induction fields generalizing fields' with
  | nil =>
    cases fields' with
    | nil => rfl
    | cons field' rest' =>
      have hlength := congrArg List.length h
      rw [transcript_nil, transcript_cons, List.length_append, length_frame, List.length_nil]
        at hlength
      omega
  | cons field rest ih =>
    cases fields' with
    | nil =>
      have hlength := congrArg List.length h
      rw [transcript_nil, transcript_cons, List.length_append, length_frame, List.length_nil]
        at hlength
      omega
    | cons field' rest' =>
      rw [transcript_cons, transcript_cons] at h
      obtain ⟨hfield, hrest⟩ := frame_append_inj (hfits field List.mem_cons_self)
        (hfits' field' List.mem_cons_self) h
      have htail := ih (fun f hf => hfits f (List.mem_cons_of_mem _ hf))
        (fun f hf => hfits' f (List.mem_cons_of_mem _ hf)) hrest
      rw [hfield, htail]

end Transcripts
