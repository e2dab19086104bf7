import DolphinXR.Common.StringUtil
import DolphinXR.Core.ActionReplay
import DolphinXR.DiscIO.LaggedFibonacciGenerator
import DolphinXR.Lib.HexNumerals
import DolphinXR.Lib.PairCipher

/- Encrypted Action Replay codes (Core/ARDecrypt.cpp, and `DeserializeLine` of
   Core/ActionReplay.cpp): a line's thirteen characters become two words and a bit that is compared
   with their parity, and the words of a block go through the cipher and are verified.

   A lookup outside of a table is `none` everywhere. `missing` is what `GetVal` makes of a character
   that `strchr` does not find: the difference of the null pointer and the address of the table, in
   32 bits. A null character is found at the end of the table. Left out: the log. -/
namespace DolphinXR.ActionReplay
open Common Lib
open DiscIO.Lfg (swap32)

/-! ### Lines -/

/-- `TryParse` of a u32 in base 16: `strtoull`, which has to end where the text does. -/
def tryParseHex (t : Text) : Option Word :=
  let t := t.takeWhile (· != '\x00')
  if t = [] then some 0
  else
    let (negative, digits) := match t.dropWhile isSpace with
      | '-' :: digits => (true, digits)
      | '+' :: digits => (false, digits)
      | digits => (false, digits)
    let digits := match digits with
      | '0' :: x :: d :: rest =>
        if (x = 'x' ∨ x = 'X') ∧ HexNumerals.isDigit d then d :: rest else digits
      | _ => digits
    if digits = [] ∨ ¬digits.all HexNumerals.isDigit then none
    else
      let value := HexNumerals.valueFrom 0 digits
      if 2 ^ 64 ≤ value then none
      else
        let value := if negative then (2 ^ 64 - value) % 2 ^ 64 else value
        if 2 ^ 32 ≤ value then none else some (BitVec.ofNat 32 value)

inductive ParsedLine where
  | entry (op : AREntry)
  | encrypted (line : Text)
  | failed
  deriving DecidableEq

/-- Decrypted code, if the line has two pieces of eight characters. -/
def deserializeDecrypted (line : Text) : Option AREntry :=
  match splitString ' ' line with
  | [addr, val] =>
    if addr.length = 8 ∧ val.length = 8 then do
      let cmdAddr ← tryParseHex addr
      let value ← tryParseHex val
      return { cmdAddr := cmdAddr, value := value }
    else none
  | _ => none

def deserializeLine (line : Text) : ParsedLine :=
  match deserializeDecrypted line with
  | some op => .entry op
  | none =>
    match splitString '-' line with
    | [a, b, c] =>
      if a.length = 4 ∧ b.length = 4 ∧ c.length = 5 then .encrypted (a ++ b ++ c) else .failed
    | _ => .failed

/-! ### Tables -/

def filter : Text := "0123456789ABCDEFGHJKMNPQRTUVWXYZILOS".toList

def gentable0 : List Nat :=
  [0x39, 0x31, 0x29, 0x21, 0x19, 0x11, 0x09, 0x01, 0x3A, 0x32, 0x2A, 0x22, 0x1A, 0x12,
   0x0A, 0x02, 0x3B, 0x33, 0x2B, 0x23, 0x1B, 0x13, 0x0B, 0x03, 0x3C, 0x34, 0x2C, 0x24,
   0x3F, 0x37, 0x2F, 0x27, 0x1F, 0x17, 0x0F, 0x07, 0x3E, 0x36, 0x2E, 0x26, 0x1E, 0x16,
   0x0E, 0x06, 0x3D, 0x35, 0x2D, 0x25, 0x1D, 0x15, 0x0D, 0x05, 0x1C, 0x14, 0x0C, 0x04]

def gentable1 : List Nat :=
  [0x80, 0x40, 0x20, 0x10, 0x08, 0x04, 0x02, 0x01]

def gentable2 : List Nat :=
  [0x01, 0x02, 0x04, 0x06, 0x08, 0x0A, 0x0C, 0x0E, 0x0F, 0x11, 0x13, 0x15, 0x17, 0x19, 0x1B, 0x1C]

def gentable3 : List Nat :=
  [0x0E, 0x11, 0x0B, 0x18, 0x01, 0x05, 0x03, 0x1C, 0x0F, 0x06, 0x15, 0x0A, 0x17, 0x13, 0x0C, 0x04,
   0x1A, 0x08, 0x10, 0x07, 0x1B, 0x14, 0x0D, 0x02, 0x29, 0x34, 0x1F, 0x25, 0x2F, 0x37, 0x1E, 0x28,
   0x33, 0x2D, 0x21, 0x30, 0x2C, 0x31, 0x27, 0x38, 0x22, 0x35, 0x2E, 0x2A, 0x32, 0x24, 0x1D, 0x20]

def gensubtable : List Nat :=
  [0x34, 0x1C, 0x84, 0x9E, 0xFD, 0xA4, 0xB6, 0x7B]

def crctable0 : List (BitVec 16) :=
  [0x0000, 0x1081, 0x2102, 0x3183, 0x4204, 0x5285, 0x6306, 0x7387,
   0x8408, 0x9489, 0xA50A, 0xB58B, 0xC60C, 0xD68D, 0xE70E, 0xF78F].map (BitVec.ofNat 16)

def crctable1 : List (BitVec 16) :=
  [0x0000, 0x1189, 0x2312, 0x329B, 0x4624, 0x57AD, 0x6536, 0x74BF,
   0x8C48, 0x9DC1, 0xAF5A, 0xBED3, 0xCA6C, 0xDBE5, 0xE97E, 0xF8F7].map (BitVec.ofNat 16)

def table0 : List Word :=
  [0x01010400, 0x00000000, 0x00010000, 0x01010404, 0x01010004, 0x00010404, 0x00000004, 0x00010000,
   0x00000400, 0x01010400, 0x01010404, 0x00000400, 0x01000404, 0x01010004, 0x01000000, 0x00000004,
   0x00000404, 0x01000400, 0x01000400, 0x00010400, 0x00010400, 0x01010000, 0x01010000, 0x01000404,
   0x00010004, 0x01000004, 0x01000004, 0x00010004, 0x00000000, 0x00000404, 0x00010404, 0x01000000,
   0x00010000, 0x01010404, 0x00000004, 0x01010000, 0x01010400, 0x01000000, 0x01000000, 0x00000400,
   0x01010004, 0x00010000, 0x00010400, 0x01000004, 0x00000400, 0x00000004, 0x01000404, 0x00010404,
   0x01010404, 0x00010004, 0x01010000, 0x01000404, 0x01000004, 0x00000404, 0x00010404, 0x01010400,
   0x00000404, 0x01000400, 0x01000400, 0x00000000, 0x00010004, 0x00010400, 0x00000000, 0x01010004].map (BitVec.ofNat 32)

def table1 : List Word :=
  [0x80108020, 0x80008000, 0x00008000, 0x00108020, 0x00100000, 0x00000020, 0x80100020, 0x80008020,
   0x80000020, 0x80108020, 0x80108000, 0x80000000, 0x80008000, 0x00100000, 0x00000020, 0x80100020,
   0x00108000, 0x00100020, 0x80008020, 0x00000000, 0x80000000, 0x00008000, 0x00108020, 0x80100000,
   0x00100020, 0x80000020, 0x00000000, 0x00108000, 0x00008020, 0x80108000, 0x80100000, 0x00008020,
   0x00000000, 0x00108020, 0x80100020, 0x00100000, 0x80008020, 0x80100000, 0x80108000, 0x00008000,
   0x80100000, 0x80008000, 0x00000020, 0x80108020, 0x00108020, 0x00000020, 0x00008000, 0x80000000,
   0x00008020, 0x80108000, 0x00100000, 0x80000020, 0x00100020, 0x80008020, 0x80000020, 0x00100020,
   0x00108000, 0x00000000, 0x80008000, 0x00008020, 0x80000000, 0x80100020, 0x80108020, 0x00108000].map (BitVec.ofNat 32)

def table2 : List Word :=
  [0x00000208, 0x08020200, 0x00000000, 0x08020008, 0x08000200, 0x00000000, 0x00020208, 0x08000200,
   0x00020008, 0x08000008, 0x08000008, 0x00020000, 0x08020208, 0x00020008, 0x08020000, 0x00000208,
   0x08000000, 0x00000008, 0x08020200, 0x00000200, 0x00020200, 0x08020000, 0x08020008, 0x00020208,
   0x08000208, 0x00020200, 0x00020000, 0x08000208, 0x00000008, 0x08020208, 0x00000200, 0x08000000,
   0x08020200, 0x08000000, 0x00020008, 0x00000208, 0x00020000, 0x08020200, 0x08000200, 0x00000000,
   0x00000200, 0x00020008, 0x08020208, 0x08000200, 0x08000008, 0x00000200, 0x00000000, 0x08020008,
   0x08000208, 0x00020000, 0x08000000, 0x08020208, 0x00000008, 0x00020208, 0x00020200, 0x08000008,
   0x08020000, 0x08000208, 0x00000208, 0x08020000, 0x00020208, 0x00000008, 0x08020008, 0x00020200].map (BitVec.ofNat 32)

def table3 : List Word :=
  [0x00802001, 0x00002081, 0x00002081, 0x00000080, 0x00802080, 0x00800081, 0x00800001, 0x00002001,
   0x00000000, 0x00802000, 0x00802000, 0x00802081, 0x00000081, 0x00000000, 0x00800080, 0x00800001,
   0x00000001, 0x00002000, 0x00800000, 0x00802001, 0x00000080, 0x00800000, 0x00002001, 0x00002080,
   0x00800081, 0x00000001, 0x00002080, 0x00800080, 0x00002000, 0x00802080, 0x00802081, 0x00000081,
   0x00800080, 0x00800001, 0x00802000, 0x00802081, 0x00000081, 0x00000000, 0x00000000, 0x00802000,
   0x00002080, 0x00800080, 0x00800081, 0x00000001, 0x00802001, 0x00002081, 0x00002081, 0x00000080,
   0x00802081, 0x00000081, 0x00000001, 0x00002000, 0x00800001, 0x00002001, 0x00802080, 0x00800081,
   0x00002001, 0x00002080, 0x00800000, 0x00802001, 0x00000080, 0x00800000, 0x00002000, 0x00802080].map (BitVec.ofNat 32)

def table4 : List Word :=
  [0x00000100, 0x02080100, 0x02080000, 0x42000100, 0x00080000, 0x00000100, 0x40000000, 0x02080000,
   0x40080100, 0x00080000, 0x02000100, 0x40080100, 0x42000100, 0x42080000, 0x00080100, 0x40000000,
   0x02000000, 0x40080000, 0x40080000, 0x00000000, 0x40000100, 0x42080100, 0x42080100, 0x02000100,
   0x42080000, 0x40000100, 0x00000000, 0x42000000, 0x02080100, 0x02000000, 0x42000000, 0x00080100,
   0x00080000, 0x42000100, 0x00000100, 0x02000000, 0x40000000, 0x02080000, 0x42000100, 0x40080100,
   0x02000100, 0x40000000, 0x42080000, 0x02080100, 0x40080100, 0x00000100, 0x02000000, 0x42080000,
   0x42080100, 0x00080100, 0x42000000, 0x42080100, 0x02080000, 0x00000000, 0x40080000, 0x42000000,
   0x00080100, 0x02000100, 0x40000100, 0x00080000, 0x00000000, 0x40080000, 0x02080100, 0x40000100].map (BitVec.ofNat 32)

def table5 : List Word :=
  [0x20000010, 0x20400000, 0x00004000, 0x20404010, 0x20400000, 0x00000010, 0x20404010, 0x00400000,
   0x20004000, 0x00404010, 0x00400000, 0x20000010, 0x00400010, 0x20004000, 0x20000000, 0x00004010,
   0x00000000, 0x00400010, 0x20004010, 0x00004000, 0x00404000, 0x20004010, 0x00000010, 0x20400010,
   0x20400010, 0x00000000, 0x00404010, 0x20404000, 0x00004010, 0x00404000, 0x20404000, 0x20000000,
   0x20004000, 0x00000010, 0x20400010, 0x00404000, 0x20404010, 0x00400000, 0x00004010, 0x20000010,
   0x00400000, 0x20004000, 0x20000000, 0x00004010, 0x20000010, 0x20404010, 0x00404000, 0x20400000,
   0x00404010, 0x20404000, 0x00000000, 0x20400010, 0x00000010, 0x00004000, 0x20400000, 0x00404010,
   0x00004000, 0x00400010, 0x20004010, 0x00000000, 0x20404000, 0x20000000, 0x00400010, 0x20004010].map (BitVec.ofNat 32)

def table6 : List Word :=
  [0x00200000, 0x04200002, 0x04000802, 0x00000000, 0x00000800, 0x04000802, 0x00200802, 0x04200800,
   0x04200802, 0x00200000, 0x00000000, 0x04000002, 0x00000002, 0x04000000, 0x04200002, 0x00000802,
   0x04000800, 0x00200802, 0x00200002, 0x04000800, 0x04000002, 0x04200000, 0x04200800, 0x00200002,
   0x04200000, 0x00000800, 0x00000802, 0x04200802, 0x00200800, 0x00000002, 0x04000000, 0x00200800,
   0x04000000, 0x00200800, 0x00200000, 0x04000802, 0x04000802, 0x04200002, 0x04200002, 0x00000002,
   0x00200002, 0x04000000, 0x04000800, 0x00200000, 0x04200800, 0x00000802, 0x00200802, 0x04200800,
   0x00000802, 0x04000002, 0x04200802, 0x04200000, 0x00200800, 0x00000000, 0x00000002, 0x04200802,
   0x00000000, 0x00200802, 0x04200000, 0x00000800, 0x04000002, 0x04000800, 0x00000800, 0x00200002].map (BitVec.ofNat 32)

def table7 : List Word :=
  [0x10001040, 0x00001000, 0x00040000, 0x10041040, 0x10000000, 0x10001040, 0x00000040, 0x10000000,
   0x00040040, 0x10040000, 0x10041040, 0x00041000, 0x10041000, 0x00041040, 0x00001000, 0x00000040,
   0x10040000, 0x10000040, 0x10001000, 0x00001040, 0x00041000, 0x00040040, 0x10040040, 0x10041000,
   0x00001040, 0x00000000, 0x00000000, 0x10040040, 0x10000040, 0x10001000, 0x00041040, 0x00040000,
   0x00041040, 0x00040000, 0x10041000, 0x00001000, 0x00000040, 0x10040040, 0x00001000, 0x00041040,
   0x10001000, 0x00000040, 0x10000040, 0x10040000, 0x10040040, 0x10000000, 0x00040000, 0x10001040,
   0x00000000, 0x10041040, 0x00040040, 0x10000040, 0x10040000, 0x10001000, 0x10001040, 0x00000000,
   0x10041040, 0x00041000, 0x00041000, 0x00001040, 0x00001040, 0x00040040, 0x10000000, 0x10041000].map (BitVec.ofNat 32)

/-! ### Seeds -/

/-- A bit for each entry of the first table. -/
def genArray0 : Option (List Nat) :=
  gentable0.mapM fun g => do
    let tmp := g - 1
    let sub ← gensubtable[tmp >>> 3]?
    let bit ← gentable1[tmp &&& 7]?
    return ((0 - BitVec.ofNat 32 (sub &&& bit)) >>> 31).toNat

/-- The bits, each half turned by `tmp2`. -/
def genArray1 (array0 : List Nat) (tmp2 : Nat) : Option (List Nat) :=
  (List.range 0x38).mapM fun j =>
    let tmp := (tmp2 + j) % 256
    let tmp :=
      if 0x1B < j then if 0x37 < tmp then tmp - 0x1C else tmp
      else if 0x1B < tmp then tmp - 0x1C else tmp
    array0[tmp]?

/-- Some of the bits as eight numbers of six bits. -/
def genArray2 (array1 : List Nat) : Option (List Nat) :=
  (List.range 0x30).foldlM
    (fun array2 j => do
      let k ← gentable3[j]?
      let bit ← array1[k - 1]?
      if bit = 0 then return array2
      else
        let tmp := ((j * 0x2AAB) >>> 16 - j >>> 0x1F) % 256
        let old ← array2[tmp]?
        let new ← gentable1[j - tmp * 6]?
        return array2.set tmp (old ||| new >>> 2))
    (List.replicate 8 0)

/-- Two seeds of eight numbers. -/
def seedPair (array2 : List Nat) : Option (List Word) :=
  match array2 with
  | [a0, a1, a2, a3, a4, a5, a6, a7] =>
    some [BitVec.ofNat 32 (a0 <<< 24 ||| a2 <<< 16 ||| a4 <<< 8 ||| a6),
      BitVec.ofNat 32 (a1 <<< 24 ||| a3 <<< 16 ||| a5 <<< 8 ||| a7)]
  | _ => none

def swapSeeds (seeds : List Word) (i j : Nat) : Option (List Word) := do
  let a ← seeds[i]?
  let b ← seeds[j]?
  return (seeds.set i b).set j a

/-- The seeds are made in pairs; the first sixteen pairs are then turned round. -/
def makeSeeds : Option (List Word) := do
  let array0 ← genArray0
  let pairs ← gentable2.mapM fun tmp2 => do
    let array1 ← genArray1 array0 tmp2
    let array2 ← genArray2 array1
    seedPair array2
  let seeds := pairs.flatten ++ List.replicate (0x30 - 0x20) 0
  (List.range 8).foldlM
    (fun seeds k => do
      let seeds ← swapSeeds seeds (2 * k) (0x1F - 2 * k - 1)
      swapSeeds seeds (2 * k + 1) (0x1F - 2 * k))
    seeds

def genseeds : List Word := makeSeeds.getD []

/-! ### The cipher -/

def unscramble1 (addr val : Word) : Word × Word :=
  let val := val.rotateLeft 4
  let tmp := (addr ^^^ val) &&& 0xF0F0F0F0
  let addr := addr ^^^ tmp
  let val := (val ^^^ tmp).rotateRight 0x14
  let tmp := (addr ^^^ val) &&& 0xFFFF0000
  let addr := addr ^^^ tmp
  let val := (val ^^^ tmp).rotateRight 0x12
  let tmp := (addr ^^^ val) &&& 0x33333333
  let addr := addr ^^^ tmp
  let val := (val ^^^ tmp).rotateRight 6
  let tmp := (addr ^^^ val) &&& 0x00FF00FF
  let addr := addr ^^^ tmp
  let val := (val ^^^ tmp).rotateLeft 9
  let tmp := (addr ^^^ val) &&& 0xAAAAAAAA
  ((addr ^^^ tmp).rotateLeft 1, val ^^^ tmp)

def unscramble2 (addr val : Word) : Word × Word :=
  let val := val.rotateRight 1
  let tmp := (addr ^^^ val) &&& 0xAAAAAAAA
  let val := val ^^^ tmp
  let addr := (addr ^^^ tmp).rotateRight 9
  let tmp := (addr ^^^ val) &&& 0x00FF00FF
  let val := val ^^^ tmp
  let addr := (addr ^^^ tmp).rotateLeft 6
  let tmp := (addr ^^^ val) &&& 0x33333333
  let val := val ^^^ tmp
  let addr := (addr ^^^ tmp).rotateLeft 0x12
  let tmp := (addr ^^^ val) &&& 0xFFFF0000
  let val := val ^^^ tmp
  let addr := (addr ^^^ tmp).rotateLeft 0x14
  let tmp := (addr ^^^ val) &&& 0xF0F0F0F0
  let val := val ^^^ tmp
  ((addr ^^^ tmp).rotateRight 4, val)

def sixBits (table : List Word) (tmp : Word) (shift : Nat) : Option Word :=
  table[((tmp >>> shift) &&& 0x3F).toNat]?

/-- What a half round adds, from two words that were mixed with seeds. -/
def mixed (tmp tmp2 : Word) : Option Word := do
  let t6 ← sixBits table6 tmp 0
  let t4 ← sixBits table4 tmp 8
  let t2 ← sixBits table2 tmp 16
  let t0 ← sixBits table0 tmp 24
  let t7 ← sixBits table7 tmp2 0
  let t5 ← sixBits table5 tmp2 8
  let t3 ← sixBits table3 tmp2 16
  let t1 ← sixBits table1 tmp2 24
  return t6 ^^^ t4 ^^^ t2 ^^^ t0 ^^^ t7 ^^^ t5 ^^^ t3 ^^^ t1

/-- The same for one of the two words and the seeds from number `i` on. -/
def halfRound (seeds : List Word) (i : Nat) (word : Word) : Option Word := do
  let seed ← seeds[i]?
  let seed2 ← seeds[i + 1]?
  mixed (word.rotateRight 4 ^^^ seed) (word ^^^ seed2)

/-- The rounds from seed number `i` on. -/
def decryptRounds (seeds : List Word) : Nat → Nat → Word → Word → Option (Word × Word)
  | 0, _, addr, val => some (addr, val)
  | rounds + 1, i, addr, val => do
    let tmp ← halfRound seeds i val
    let addr := addr ^^^ tmp
    let tmp ← halfRound seeds (i + 2) addr
    let val := val ^^^ tmp
    decryptRounds seeds rounds (i + 4) addr val

def decryptCode (seeds : List Word) (code : Word × Word) : Option (Word × Word) := do
  let (addr, val) := unscramble1 (swap32 code.1) (swap32 code.2)
  let (addr, val) ← decryptRounds seeds 8 0 addr val
  let (addr, val) := unscramble2 addr val
  return (swap32 val, swap32 addr)

/-! ### Verification -/

def getCRC16Step (ret : BitVec 16) (code : Word) (i : Nat) : Option (BitVec 16) := do
  let tmp := ((code >>> (i <<< 3)) ^^^ ret.zeroExtend 32).truncate 8
  let a ← crctable0[((tmp >>> 4) &&& 0x0F).toNat]?
  let b ← crctable1[(tmp &&& 0x0F).toNat]?
  return (a ^^^ b) ^^^ (ret >>> 8)

def getCRC16 (codes : List Word) : Option (BitVec 16) :=
  codes.foldlM (fun ret code => (List.range 4).foldlM (fun ret i => getCRC16Step ret code i) ret) 0

def verifyCode (codes : List Word) : Option (BitVec 16) := do
  let tmp ← getCRC16 codes
  return ((tmp >>> 12) ^^^ (tmp >>> 8) ^^^ (tmp >>> 4) ^^^ tmp) &&& 0x0F

structure Ctrl where
  start : Word
  word : Word
  bit : Word
  size : Word
  deriving DecidableEq

/-- The bits are read one by one into `out`. -/
def getBitStringLoop : Nat → Ctrl → Word → Word → Ctrl × Word
  | 0, ctrl, _, out => (ctrl, out)
  | len + 1, ctrl, tmp, out =>
    let wrap := decide (0x1F < ctrl.bit)
    let ctrl := if wrap then { ctrl with bit := 0, word := ctrl.word + 1 } else ctrl
    let tmp := if wrap then ctrl.start + (ctrl.word <<< 2) else tmp
    if ctrl.size ≤ ctrl.word then (ctrl, out)
    else
      getBitStringLoop len { ctrl with bit := ctrl.bit + 1 } tmp
        ((out <<< 1) ||| ((tmp >>> (0x1F - ctrl.bit).toNat) &&& 1))

def getBitString (ctrl : Ctrl) (len : Nat) : Ctrl × Word :=
  getBitStringLoop len ctrl (ctrl.start + (ctrl.word <<< 2)) 0

structure GameIDAndRegion where
  gameId : Word
  region : Word
  deriving DecidableEq

/-- The words of the block after the cipher, two by two. -/
def decryptCodes (seeds : List Word) : List Word → Option (List Word)
  | a :: b :: codes => do
    let (a, b) ← decryptCode seeds (a, b)
    let codes ← decryptCodes seeds codes
    return a :: b :: codes
  | codes => some codes

/-- The words as they are left, and what the first two say if they verify. -/
def batchDecrypt (codes : List Word) : Option (List Word × Option GameIDAndRegion) := do
  let codes ← decryptCodes genseeds codes
  let tmp ← codes[0]?
  let codes := codes.set 0 (tmp &&& 0x0FFFFFFF)
  let code ← verifyCode codes
  if tmp >>> 28 ≠ code.zeroExtend 32 then return (codes, none)
  else
    let first ← codes[0]?
    -- Skip crc.
    let ctrl : Ctrl := { start := first, word := 0, bit := 4, size := BitVec.ofNat 32 codes.length }
    let (ctrl, gameId) := getBitString ctrl 11
    let (ctrl, _) := getBitString ctrl 17
    let (ctrl, _) := getBitString ctrl 1
    let (ctrl, _) := getBitString ctrl 1
    let (_, region) := getBitString ctrl 2
    return (codes, some { gameId := gameId, region := region })

def toUpper (c : Char) : Char := if 'a' ≤ c ∧ c ≤ 'z' then Char.ofNat (c.toNat - 32) else c

/-- The place that `strchr` finds, which can be that of the null character at the end. -/
def strchr (table : Text) (c : Char) : Option Nat := (table ++ ['\x00']).idxOf? c

def getVal (missing : Word) (chr : Char) : Word :=
  let ret := match strchr filter (toUpper chr) with
    | some i => BitVec.ofNat 32 i
    | none => missing
  match ret.toNat with
  | 32 => 1 -- 'I'
  | 33 => 1 -- 'L'
  | 34 => 0 -- 'O'
  | 35 => 5 -- 'S'
  | _ => ret

/-- The two words of a line. -/
def alphaWords (missing : Word) (row : Text) : Option (Word × Word) := do
  let c6 ← row[6]?
  let c12 ← row[12]?
  (List.range 6).foldlM
    (fun (value : Word × Word) i => do
      let a ← row[i]?
      let b ← row[i + 6]?
      return (value.1 ||| (getVal missing a <<< ((5 - i) * 5 + 2)),
        value.2 ||| (getVal missing b <<< ((5 - i) * 5 + 4))))
    (getVal missing c6 >>> 3, getVal missing c12 >>> 1)

/-- The words of the lines, or the number of the first line whose parity is wrong. -/
def convertAlphaToBinaryFrom (missing : Word) :
    Nat → List Word → List Text → Option (Except Nat (List Word))
  | _, result, [] => some (.ok result)
  | currentIndex, result, row :: alpha => do
    let (valueA, valueB) ← alphaWords missing row
    let result := result ++ [valueA, valueB]
    let parity := popcount (valueA ^^^ valueB)
    let c12 ← row[12]?
    if parity % 2 ≠ (getVal missing c12 &&& 1).toNat then return .error currentIndex
    else convertAlphaToBinaryFrom missing (currentIndex + 1) result alpha

def convertAlphaToBinary (missing : Word) (alpha : List Text) : Option (Except Nat (List Word)) :=
  convertAlphaToBinaryFrom missing 0 [] alpha

/-- What `DecryptARCode` returns, the ops afterwards, and the culprit that the user is told of. -/
structure Decryption where
  info : Option GameIDAndRegion
  result : List AREntry
  culprit : Option Text
  deriving DecidableEq

def entriesOf : List Word → List AREntry
  | a :: b :: codes => { cmdAddr := a, value := b } :: entriesOf codes
  | _ => []

def decryptARCode (missing : Word) (encryptedLines : List Text) (result : List AREntry) :
    Option Decryption :=
  if encryptedLines.isEmpty then some { info := none, result := result, culprit := none }
  else do
    match ← convertAlphaToBinary missing encryptedLines with
    | .error index =>
      let line ← encryptedLines[index]?
      return { info := none, result := result, culprit := some line }
    | .ok codes =>
      let (codes, info) ← batchDecrypt codes
      match info with
      | none => return { info := none, result := result ++ entriesOf codes, culprit := none }
      -- Skip passing the verification code back.
      | some info =>
        return { info := some info, result := result ++ entriesOf (codes.drop 2), culprit := none }

end DolphinXR.ActionReplay
