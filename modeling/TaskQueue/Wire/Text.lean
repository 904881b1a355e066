import Mathlib.Data.String.Basic
import TaskQueue.Job

/-!
# Text and bytes

A record in memory holds `str` and `bytes`; on the wire everything is bytes. The client
encodes text as UTF-8, and either leaves replies as they are or decodes all of them
(`decode_responses`).
-/

namespace TaskQueue.Wire

/-- `str.encode()`. -/
def encode (s : String) : Blob := s.toByteArray.data.toList

/-- `bytes.decode()`; `none` for bytes that are not UTF-8. -/
def decode (b : Blob) : Option String := String.fromUTF8? ⟨b.toArray⟩

@[simp] theorem decode_encode (s : String) : decode (encode s) = some s := by
  have hbytes : (⟨(encode s).toArray⟩ : ByteArray) = s.toByteArray := by simp [encode]
  have hvalid : s.toByteArray.IsValidUTF8 := s.isValidUTF8
  rw [decode, hbytes, String.fromUTF8?, dif_pos hvalid]
  rfl

theorem encode_of_decode {b : Blob} {s : String} (h : decode b = some s) : encode s = b := by
  unfold decode String.fromUTF8? at h
  split at h
  · cases h
    rfl
  · cases h

theorem decode_eq_some {b : Blob} {s : String} : decode b = some s ↔ b = encode s := by
  constructor
  · exact fun h => (encode_of_decode h).symm
  · rintro rfl
    exact decode_encode s

theorem encode_injective : Function.Injective encode := by
  intro s t h
  rw [← Option.some_inj, ← decode_encode s, ← decode_encode t, h]

@[simp] theorem encode_inj {s t : String} : encode s = encode t ↔ s = t :=
  encode_injective.eq_iff

/-- What can go wrong between a job and its record. -/
inductive Error where
  | keyError
  | valueError
  | typeError
  | unicodeDecodeError
  | responseError
deriving DecidableEq, Repr

/-- A value of a record, and of a reply. -/
inductive Datum where
  | text (s : String)
  | bytes (b : Blob)
deriving DecidableEq

namespace Datum

/-- What the client sends for an argument. -/
def encoded : Datum → Blob
  | text s => encode s
  | bytes b => b

/-- `v.decode() if isinstance(v, bytes) else v`. -/
def decoded : Datum → Except Error String
  | text s => .ok s
  | bytes b =>
    match decode b with
    | some s => .ok s
    | none => .error .unicodeDecodeError

@[simp] theorem decoded_encode (s : String) : (bytes (encode s)).decoded = .ok s := by
  rw [decoded, decode_encode]

/-- What the client makes of a bulk reply. -/
def received (decodeResponses : Bool) (b : Blob) : Except Error Datum :=
  if decodeResponses then
    match decode b with
    | some s => .ok (text s)
    | none => .error .unicodeDecodeError
  else .ok (bytes b)

end Datum

end TaskQueue.Wire
