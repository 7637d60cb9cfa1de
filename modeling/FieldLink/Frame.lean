import FieldLink.Aes
import FieldLink.Gcm
import FieldLink.RandomSource
import FieldLink.SecurityContext

/-!
# Sealed frames

Version, flags, a counter of eight octets, an initialisation vector of twelve, the ciphertext and a tag of
sixteen. The first ten octets are authenticated and not encrypted. A receiver takes only counters above its
watermark, which moves with each frame it opens.
-/

namespace FieldLink.Frame

def version : UInt8 := 1
def headerLength : Nat := 10
def vectorLength : Nat := 12
def tagLength : Nat := 16

def bodyStart : Nat := headerLength + vectorLength

def overhead : Nat := headerLength + vectorLength + tagLength

/-- Version, flags and counter. -/
def header (counter : UInt64) : Octets := version :: 0 :: Octets.bigEndian 8 counter.toNat

def sealedLength (c : SecurityContext) (length : Nat) : Nat :=
  if c.frameKey.isSome then length + overhead else length

/-- Seals a text into the front of a buffer. Returns how much was written or why nothing was sealed, and
buffer, context and source after it. The counter moves only when the buffer is long enough, and the source
only when there is a counter. -/
def sealInto (c : SecurityContext) (text buffer : Octets) (source : RandomSource) :
    Except SecurityError Nat × Octets × SecurityContext × RandomSource :=
  let needed := sealedLength c text.length
  if buffer.length < needed then (.error (.bufferTooSmall needed buffer.length), buffer, c, source)
  else
    match c.frameKey with
    | none => (.ok text.length, buffer.overwrite 0 text, c, source)
    | some key =>
      match c.advance with
      | .error e => (.error e, buffer, c, source)
      | .ok c =>
        let head := header c.sent
        let (vector, source) := source.draw vectorLength
        let buffer := (buffer.overwrite 0 head).overwrite headerLength vector
        let buffer := buffer.overwrite bodyStart text
        match Gcm.encrypt? (Aes.encrypt key.octets) vector head text with
        | none => (.error (.invalidArgument .textTooLong), buffer, c, source)
        | some (body, tag) =>
          let buffer := (buffer.overwrite bodyStart body).overwrite (bodyStart + body.length) tag
          (.ok needed, buffer, c, source)

def sealText (c : SecurityContext) (text : Octets) (source : RandomSource) :
    Except SecurityError Octets × SecurityContext × RandomSource :=
  let buffer := List.replicate (sealedLength c text.length) 0
  let (written, buffer, c, source) := sealInto c text buffer source
  (written.map fun n => buffer.take n, c, source)

def counterOf (frame : Octets) : UInt64 := UInt64.ofNat (frame.slice 2 headerLength).toNat

def vectorOf (frame : Octets) : Octets := frame.slice headerLength bodyStart
def bodyOf (frame : Octets) : Octets := frame.slice bodyStart (frame.length - tagLength)
def tagOf (frame : Octets) : Octets := frame.drop (frame.length - tagLength)

/-- Whether a frame is long enough, of this version, without flags and not seen before. -/
def isAdmissible (frame : Octets) (watermark : UInt64) : Bool :=
  overhead ≤ frame.length ∧ frame.getD 0 0 = version ∧ frame.getD 1 0 = 0 ∧ watermark < counterOf frame

/-- Opens a frame in its buffer: the ciphertext is decrypted in its place, moved to the front, and what
follows it is cut off. The watermark moves only when the tag is right. -/
def openInPlace (c : SecurityContext) (buffer : Octets) (watermark : UInt64) :
    Except SecurityError Unit × Octets × UInt64 :=
  match c.frameKey with
  | none => (.ok (), buffer, watermark)
  | some key =>
    if isAdmissible buffer watermark then
      let counter := counterOf buffer
      let (authentic, body) := Gcm.decryptInPlace (Aes.encrypt key.octets) (vectorOf buffer)
        (buffer.take headerLength) (bodyOf buffer) (tagOf buffer)
      let buffer := buffer.overwrite bodyStart body
      if authentic then
        let text := bodyOf buffer
        (.ok (), (buffer.overwrite 0 text).take text.length, counter)
      else (.error .invalidResponse, buffer, watermark)
    else (.error .invalidResponse, buffer, watermark)

def openText (c : SecurityContext) (frame : Octets) (watermark : UInt64) :
    Except SecurityError Octets × UInt64 :=
  let (result, text, watermark) := openInPlace c frame watermark
  (result.map fun _ => text, watermark)

end FieldLink.Frame
