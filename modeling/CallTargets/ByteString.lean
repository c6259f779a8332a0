import CallTargets.Text.Utf8

/-!
# Byte strings

Names of symbols and paths of files are strings of bytes. Two of them are the same exactly when
their bytes are, also where the bytes are no text and are shown alike.
-/
namespace CallTargets

structure ByteString where
  bytes : List UInt8
deriving DecidableEq, Repr, Inhabited, Ord

namespace ByteString

def ofText (s : String) : ByteString := ⟨s.toUTF8.data.toList⟩

instance : Coe String ByteString := ⟨ofText⟩

theorem ofText_injective : Function.Injective ofText := by
  intro a b h
  rw [ofText, ofText, ByteString.mk.injEq] at h
  exact String.toByteArray_inj.mp (ByteArray.ext (Array.toList_inj.mp h))

/-- The text that the bytes hold; what is no text in them is shown as U+FFFD. -/
def text (b : ByteString) : String := Text.ofUtf8 b.bytes

instance : Append ByteString := ⟨fun a b => ⟨a.bytes ++ b.bytes⟩⟩

def isEmpty (b : ByteString) : Bool := b.bytes.isEmpty

def length (b : ByteString) : Nat := b.bytes.length

/-- Whether a list of bytes comes before another; a beginning comes before the whole. -/
def bytesBefore : List UInt8 → List UInt8 → Bool
  | _, [] => false
  | [], _ :: _ => true
  | a :: as, b :: bs => a < b || (a == b && bytesBefore as bs)

/-- Whether `a` comes before `b`, byte by byte. -/
def before (a b : ByteString) : Bool := bytesBefore a.bytes b.bytes

@[simp] theorem bytes_append (a b : ByteString) : (a ++ b).bytes = a.bytes ++ b.bytes := rfl

end ByteString
end CallTargets
