import DualImage.Text.Basic

/-! Names of files. A file system knows them as bytes, and a byte that belongs to no character is
written as a low surrogate. -/
namespace DualImage.FileName

/-- The bytes of a code point. Surrogates other than those of the bytes above ASCII have none. -/
def bytesOf? : CodePoint → Option (List UInt8)
  | .character c => some (String.utf8EncodeChar c)
  | .surrogate offset =>
    if 0x480 ≤ offset.val ∧ offset.val < 0x500 then some [UInt8.ofNat (offset - 0x400)] else none

def bytes? (name : Text) : Option (List UInt8) := (name.codes.mapM bytesOf?).map List.flatten

/-- The length in bytes. -/
def size (name : Text) : Nat := ((bytes? name).getD []).length

/-- No name holds a null character. -/
def isUsable (name : Text) : Bool :=
  !name.codes.contains (.character '\x00') && (bytes? name).isSome

theorem offset_lt (b : UInt8) : 0x400 + b.toNat < 0x800 := by
  have := b.toNat_lt
  omega

/-- The surrogate that stands for a byte. -/
def ofByte (b : UInt8) : CodePoint := .surrogate ⟨0x400 + b.toNat, offset_lt b⟩

/-- The characters that a row of bytes holds, with surrogates for the bytes between them. The first
`held` bytes belong to a character that is read already. -/
def readFrom : (held : Nat) → List UInt8 → List CodePoint
  | _, [] => []
  | held + 1, _ :: rest => readFrom held rest
  | 0, b :: rest =>
    match (ByteArray.mk (b :: rest.take 3).toArray).utf8DecodeChar? 0 with
    | some c => .character c :: readFrom (c.utf8Size - 1) rest
    | none => ofByte b :: readFrom 0 rest

def ofBytes (bytes : List UInt8) : Text := ⟨readFrom 0 bytes⟩

/-- The name as it is read back. Only surrogates that make up the bytes of a character change. -/
def canonical (name : Text) : Text :=
  if name.string?.isSome then name
  else match bytes? name with
    | some bytes => ofBytes bytes
    | none => name

@[simp] theorem canonical_ofString (s : String) :
    canonical (Text.ofString s) = Text.ofString s := by
  simp [canonical]

end DualImage.FileName
