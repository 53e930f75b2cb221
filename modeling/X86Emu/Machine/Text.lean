import X86Emu.Machine.State

/-!
# Hexadecimal text

The `decode_hex*` functions of `decode.c`. They append characters to the text they are given, the
disassembly or the log; here they are the characters they append.
-/

namespace X86Emu

/-- `h[v & 0xf]` -/
def hexDigit (v : U32) : Char :=
  match (v.extractLsb' 0 4).toNat with
  | 0 => '0' | 1 => '1' | 2 => '2' | 3 => '3' | 4 => '4' | 5 => '5' | 6 => '6' | 7 => '7'
  | 8 => '8' | 9 => '9' | 10 => 'a' | 11 => 'b' | 12 => 'c' | 13 => 'd' | 14 => 'e' | _ => 'f'

def decodeHex1 (ofs : U32) : List Char := [hexDigit ofs]

def decodeHex2 (ofs : U32) : List Char := [hexDigit (ofs >>> 4), hexDigit ofs]

def decodeHex4 (ofs : U32) : List Char :=
  [hexDigit (ofs >>> 12), hexDigit (ofs >>> 8), hexDigit (ofs >>> 4), hexDigit ofs]

def decodeHex8 (ofs : U32) : List Char :=
  decodeHex4 (ofs >>> 16) ++ decodeHex4 (ofs &&& 0xffff)

/-- `decode_hex`: no leading zeros, `0` for zero -/
def decodeHex (ofs : U32) : List Char :=
  if ofs = 0 then ['0'] else (decodeHex8 ofs).dropWhile (· = '0')

/-- `decode_hex32`: the 16 bytes of an XMM register, the highest first -/
def decodeHex32 (v : Fin 16 → U8) : List Char :=
  (List.finRange 16).reverse.flatMap fun i => decodeHex2 ((v i).setWidth 32)

/-- The sign character and the absolute value of a displacement. -/
def signed (ofs : U32) (digits : U32 → List Char) : List Char :=
  if ofs.msb then '-' :: digits (-ofs) else '+' :: digits ofs

def decodeHex2s (ofs : U32) : List Char := signed ofs decodeHex2
def decodeHex4s (ofs : U32) : List Char := signed ofs decodeHex4
def decodeHex8s (ofs : U32) : List Char := signed ofs decodeHex8

/-- `decode_hex_addr` with `MODE_CODE32` as its first argument -/
def decodeHexAddr (code32 : Bool) (ofs : U32) : List Char :=
  if code32 then decodeHex4 (ofs >>> 16) ++ decodeHex4 (ofs &&& 0xffff)
  else decodeHex4 (ofs &&& 0xffff)

/-! ## Lengths -/

@[simp] theorem length_decodeHex1 (v : U32) : (decodeHex1 v).length = 1 := rfl

@[simp] theorem length_decodeHex2 (v : U32) : (decodeHex2 v).length = 2 := rfl

@[simp] theorem length_decodeHex4 (v : U32) : (decodeHex4 v).length = 4 := rfl

@[simp] theorem length_decodeHex8 (v : U32) : (decodeHex8 v).length = 8 := rfl

@[simp] theorem length_decodeHex32 (v : Fin 16 → U8) : (decodeHex32 v).length = 32 := rfl

theorem length_signed (ofs : U32) {digits : U32 → List Char} {n : Nat}
    (h : ∀ v, (digits v).length = n) : (signed ofs digits).length = n + 1 := by
  unfold signed
  split <;> simp [h]

@[simp] theorem length_decodeHex2s (v : U32) : (decodeHex2s v).length = 3 :=
  length_signed v length_decodeHex2

@[simp] theorem length_decodeHex4s (v : U32) : (decodeHex4s v).length = 5 :=
  length_signed v length_decodeHex4

@[simp] theorem length_decodeHex8s (v : U32) : (decodeHex8s v).length = 9 :=
  length_signed v length_decodeHex8

theorem length_decodeHexAddr (code32 : Bool) (v : U32) :
    (decodeHexAddr code32 v).length ≤ 8 := by
  cases code32 <;> simp [decodeHexAddr]

end X86Emu
