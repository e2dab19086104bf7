import DolphinXR.Lib.Bytes

/- The readers of tickets, title metadata and certificates (Core/IOS/ES/Formats.cpp), which get
   their bytes from discs, WADs and the emulated program. A read of bytes that are not all there is
   `none`, and so is a certificate chain for which the rounds do not suffice.

   All reads of the metadata and of certificates are inside of the bytes. A ticket's version and,
   for version 1, its size are read before anything but the size of the signature is known, which
   is where reads outside can happen; a ticket file that is valid is a row of tickets of one size.
   Left out: the fields that these functions do not read, and what is decrypted. -/
namespace DolphinXR.IOS.ES
open Lib

def bytesAt (bytes : Bytes) (offset length : Nat) : Option Bytes :=
  if offset + length ≤ bytes.length then some (slice bytes offset length) else none

inductive SignatureType where
  | rsa4096 | rsa2048 | ecc
  deriving DecidableEq

def SignatureType.ofCode : Nat → Option SignatureType
  | 0x10000 => some rsa4096
  | 0x10001 => some rsa2048
  | 0x10002 => some ecc
  | _ => none

/-- The size of the signature with its type, padding and issuer. -/
def signatureSizeOf : Option SignatureType → Nat
  | some .rsa4096 => 0x280
  | some .rsa2048 => 0x180
  | some .ecc => 0xc0
  | none => 0

def getSignatureType (bytes : Bytes) : Option (Option SignatureType) :=
  (beAt bytes 0 4).map SignatureType.ofCode

def getSignatureSize (bytes : Bytes) : Option Nat := (getSignatureType bytes).map signatureSizeOf

def isSignatureValid (bytes : Bytes) : Option Bool :=
  -- Too small for the certificate type.
  if bytes.length < 4 then some false
  else do
    let signatureSize ← getSignatureSize bytes
    -- Too small to contain the whole signature data.
    if signatureSize = 0 ∨ bytes.length < signatureSize then return false
    else return true

namespace TMDReader

def headerSize : Nat := 0x1e4
def contentSize : Nat := 36

def getNumContents (bytes : Bytes) : Option Nat := beAt bytes 0x1de 2

def isValid (bytes : Bytes) : Option Bool := do
  let signature ← isSignatureValid bytes
  if !signature then return false
  else if bytes.length < headerSize then return false
  else
    let numContents ← getNumContents bytes
    return decide (headerSize + numContents * contentSize ≤ bytes.length)

end TMDReader

/-! ### Tickets -/

namespace TicketReader

/-- The size of a ticket, and the places of its version and its id. -/
def ticketSize : Nat := 0x2a4
def versionOffset : Nat := 0x1bc
def ticketIdOffset : Nat := 0x1d0
def viewRest : Nat := 0xd8 - 4
/-- The place of the size in the header that follows a ticket of version 1. -/
def v1SizeOffset : Nat := ticketSize + 4

def getVersion (bytes : Bytes) : Option Nat := beAt bytes versionOffset 1

def isV1Ticket (bytes : Bytes) : Option Bool :=
  -- Version can only be 0 or 1.
  (getVersion bytes).map fun version => decide (version = 1)

def getNumberOfTickets (bytes : Bytes) : Option Nat := do
  let v1 ← isV1Ticket bytes
  if v1 then return 1 else return bytes.length / ticketSize

/-- A u32. -/
def getTicketSize (bytes : Bytes) : Option Nat := do
  let v1 ← isV1Ticket bytes
  if v1 then
    let v1TicketSize ← beAt bytes v1SizeOffset 4
    return (v1TicketSize + ticketSize) % 2 ^ 32
  else return ticketSize

def isValid (bytes : Bytes) : Option Bool := do
  let signature ← isSignatureValid bytes
  if !signature || bytes.isEmpty then return false
  else
    let v1 ← isV1Ticket bytes
    if v1 then
      let size ← getTicketSize bytes
      return decide (bytes.length = size)
    else return decide (bytes.length % ticketSize = 0)

/-- The tickets from number `i` on are looked through. -/
def findRawTicket (bytes : Bytes) (ticketIdToFind : Nat) : Nat → Nat → Option Bytes
  | 0, _ => some []
  | remaining + 1, i => do
    let size ← getTicketSize bytes
    let ticketBegin := size * i
    let ticketId ← beAt bytes (ticketBegin + ticketIdOffset) 8
    if ticketId = ticketIdToFind then bytesAt bytes ticketBegin size
    else findRawTicket bytes ticketIdToFind remaining (i + 1)

def getRawTicket (bytes : Bytes) (ticketIdToFind : Nat) : Option Bytes := do
  let numTickets ← getNumberOfTickets bytes
  findRawTicket bytes ticketIdToFind numTickets 0

def getRawTicketView (bytes : Bytes) (ticketNum : Nat) : Option Bytes := do
  let ticketStart := ticketSize * ticketNum
  let viewStart := ticketStart + ticketIdOffset
  let version ← getVersion bytes
  let rest ← bytesAt bytes viewStart viewRest
  return UInt8.ofNat version :: 0 :: 0 :: 0 :: rest

/-- The tickets from number `i` on that have another id. -/
def ticketsWithout (bytes : Bytes) (ticketIdToDelete : Nat) : Nat → Nat → Option Bytes
  | 0, _ => some []
  | remaining + 1, i => do
    let size ← getTicketSize bytes
    let ticketStart := size * i
    let ticketId ← beAt bytes (ticketStart + ticketIdOffset) 8
    if ticketId = ticketIdToDelete then ticketsWithout bytes ticketIdToDelete remaining (i + 1)
    else
      let ticket ← bytesAt bytes ticketStart size
      let rest ← ticketsWithout bytes ticketIdToDelete remaining (i + 1)
      return ticket ++ rest

def deleteTicket (bytes : Bytes) (ticketIdToDelete : Nat) : Option Bytes := do
  let numTickets ← getNumberOfTickets bytes
  ticketsWithout bytes ticketIdToDelete numTickets 0

end TicketReader

/-! ### Certificates -/

structure CertReader where
  bytes : Bytes
  isValid : Bool
  deriving DecidableEq

namespace CertReader

inductive PublicKeyType where
  | rsa4096 | rsa2048 | ecc
  deriving DecidableEq

def PublicKeyType.ofCode : Nat → Option PublicKeyType
  | 0 => some rsa4096
  | 1 => some rsa2048
  | 2 => some ecc
  | _ => none

def types : List (SignatureType × PublicKeyType × Nat) :=
  [(.rsa4096, .rsa2048, 0x400), (.rsa2048, .rsa2048, 0x300), (.rsa2048, .ecc, 0x240),
    (.ecc, .ecc, 0x180)]

def getPublicKeyType (bytes : Bytes) : Option (Option PublicKeyType) := do
  let offset ← getSignatureSize bytes
  let code ← beAt bytes offset 4
  return PublicKeyType.ofCode code

/-- The first of some types that the certificate has. -/
def findType (bytes : Bytes) :
    List (SignatureType × PublicKeyType × Nat) → Option (Option Nat)
  | [] => some none
  | (signatureType, publicKeyType, size) :: types =>
    if bytes.length < size then findType bytes types
    else do
      let type ← getSignatureType bytes
      if type ≠ some signatureType then findType bytes types
      else
        let key ← getPublicKeyType bytes
        if key ≠ some publicKeyType then findType bytes types
        else return some size

def ofBytes (bytes : Bytes) : Option CertReader := do
  let signature ← isSignatureValid bytes
  if !signature then return { bytes := bytes, isValid := false }
  else
    match ← findType bytes types with
    | none => return { bytes := bytes, isValid := false }
    | some size => return { bytes := bytes.take size, isValid := true }

/-- The name, up to its first zero byte. -/
def getName (cert : CertReader) : Option Bytes := do
  let size ← getSignatureSize cert.bytes
  let name ← bytesAt cert.bytes (size + 4) 0x40
  return name.takeWhile (· ≠ 0)

end CertReader

/-- `emplace`: a name that is there already keeps its certificate. -/
def emplace (certs : List (Bytes × CertReader)) (name : Bytes) (cert : CertReader) :
    List (Bytes × CertReader) :=
  if certs.any fun entry => entry.1 == name then certs else certs ++ [(name, cert)]

/-- The rounds of `ParseCertChain`. -/
def parseCertChainLoop (chain : Bytes) :
    Nat → Nat → List (Bytes × CertReader) → Option (List (Bytes × CertReader))
  | 0, _, _ => none
  | rounds + 1, processed, certs =>
    if processed = chain.length then some certs
    else if chain.length < processed then none
    else do
      let certReader ← CertReader.ofBytes (chain.drop processed)
      if !certReader.isValid then return certs
      else
        let name ← certReader.getName
        parseCertChainLoop chain rounds (processed + certReader.bytes.length)
          (emplace certs name certReader)

def parseCertChain (chain : Bytes) : Option (List (Bytes × CertReader)) :=
  parseCertChainLoop chain (chain.length + 1) 0 []

/-! ### Signatures, metadata and certificates -/

theorem isSignatureValid_inside (bytes : Bytes) : ∃ valid, isSignatureValid bytes = some valid := by
  unfold isSignatureValid
  split
  case isTrue => exact ⟨false, rfl⟩
  case isFalse h =>
    obtain ⟨code, hcode⟩ : ∃ code, beAt bytes 0 4 = some code := beAt_isSome (by omega)
    simp only [getSignatureSize, getSignatureType, hcode, Option.map_some]
    dsimp only [Option.bind_eq_bind, Option.bind_some, bind]
    split
    · exact ⟨false, rfl⟩
    · exact ⟨true, rfl⟩

theorem signature_of_valid {bytes : Bytes} (h : isSignatureValid bytes = some true) :
    ∃ type, getSignatureType bytes = some (some type) ∧
      signatureSizeOf (some type) ≤ bytes.length := by
  unfold isSignatureValid at h
  split at h
  case isTrue => cases h
  case isFalse hlength =>
    obtain ⟨code, hcode⟩ : ∃ code, beAt bytes 0 4 = some code := beAt_isSome (by omega)
    simp only [getSignatureSize, getSignatureType, hcode, Option.map_some] at h ⊢
    dsimp only [Option.bind_eq_bind, Option.bind_some, bind] at h
    split at h
    case isTrue => cases h
    case isFalse hsize =>
      cases htype : SignatureType.ofCode code with
      | none =>
        rw [htype] at hsize
        exact absurd (.inl rfl) hsize
      | some type =>
        rw [htype] at hsize
        exact ⟨type, rfl, by omega⟩

theorem valid_of_signature {bytes : Bytes} {type : SignatureType}
    (htype : getSignatureType bytes = some (some type))
    (hsize : signatureSizeOf (some type) ≤ bytes.length) : isSignatureValid bytes = some true := by
  have hlong : 4 ≤ signatureSizeOf (some type) := by cases type <;> decide
  unfold isSignatureValid getSignatureSize
  rw [if_neg (by omega), htype, Option.map_some, Option.bind_eq_bind, Option.bind_some,
    if_neg (by omega)]
  rfl

theorem tmd_inside (bytes : Bytes) : ∃ valid, TMDReader.isValid bytes = some valid := by
  obtain ⟨signature, hsignature⟩ := isSignatureValid_inside bytes
  unfold TMDReader.isValid
  rw [hsignature]
  dsimp only [Option.bind_eq_bind, Option.bind_some, bind]
  split
  case isTrue => exact ⟨false, rfl⟩
  case isFalse =>
    split
    case isTrue => exact ⟨false, rfl⟩
    case isFalse h =>
      unfold TMDReader.headerSize at h
      obtain ⟨n, hn⟩ : ∃ n, beAt bytes 0x1de 2 = some n := beAt_isSome (by omega)
      simp only [TMDReader.getNumContents, hn]
      exact ⟨_, rfl⟩

theorem bytesAt_of_le {bytes : Bytes} {offset length : Nat} (h : offset + length ≤ bytes.length) :
    bytesAt bytes offset length = some (slice bytes offset length) := if_pos h

namespace CertReader

theorem findType_inside {bytes : Bytes} {type : SignatureType}
    (htype : getSignatureType bytes = some (some type))
    (types : List (SignatureType × PublicKeyType × Nat))
    (hroom : ∀ entry ∈ types, signatureSizeOf (some entry.1) + 0x44 ≤ entry.2.2) :
    ∃ found, findType bytes types = some found ∧
      ∀ size ∈ found, size ≤ bytes.length ∧ signatureSizeOf (some type) + 0x44 ≤ size := by
  induction types with
  | nil => exact ⟨none, rfl, nofun⟩
  | cons entry types ih =>
    obtain ⟨signatureType, publicKeyType, size⟩ := entry
    obtain ⟨hhere, hthere⟩ := List.forall_mem_cons.1 hroom
    dsimp only at hhere
    have hskip := ih hthere
    unfold findType
    split
    case isTrue => exact hskip
    case isFalse hsize =>
      rw [htype]
      dsimp only [Option.bind_eq_bind, Option.bind_some, bind]
      split
      case isTrue => exact hskip
      case isFalse hsame =>
        obtain rfl : type = signatureType := by simpa using hsame
        obtain ⟨code, hcode⟩ : ∃ code, beAt bytes (signatureSizeOf (some type)) 4 = some code :=
          beAt_isSome (by omega)
        have hkey : getPublicKeyType bytes = some (PublicKeyType.ofCode code) := by
          unfold getPublicKeyType getSignatureSize
          rw [htype]
          dsimp only [Option.map_some, Option.bind_eq_bind, Option.bind_some, bind]
          rw [hcode]
          rfl
        rw [hkey]
        dsimp only [Option.bind_some]
        split
        case isTrue => exact hskip
        case isFalse =>
          refine ⟨some size, rfl, fun size' hsize' => ?_⟩
          cases hsize'
          exact ⟨by omega, hhere⟩

/-- A certificate that is valid has its type's size, and its name is inside. -/
structure Whole (bytes : Bytes) (cert : CertReader) : Prop where
  positive : 0 < cert.bytes.length
  le : cert.bytes.length ≤ bytes.length
  name : ∃ name, cert.getName = some name

theorem certReader_inside (bytes : Bytes) :
    ∃ cert, ofBytes bytes = some cert ∧ (cert.isValid = true → Whole bytes cert) := by
  obtain ⟨signature, hsignature⟩ := isSignatureValid_inside bytes
  unfold ofBytes
  rw [hsignature]
  dsimp only [Option.bind_eq_bind, Option.bind_some, bind]
  cases signature with
  | false => exact ⟨_, rfl, nofun⟩
  | true =>
    obtain ⟨type, htype, -⟩ := signature_of_valid hsignature
    obtain ⟨found, hfound, hspec⟩ := findType_inside htype types (by decide)
    rw [if_neg (by decide), hfound]
    dsimp only [Option.bind_some]
    cases found with
    | none => exact ⟨_, rfl, nofun⟩
    | some size =>
      obtain ⟨hle, hroom⟩ := hspec size rfl
      have hlength : (bytes.take size).length = size := by
        rw [List.length_take, Nat.min_eq_left hle]
      have hcut : getSignatureType (bytes.take size) = some (some type) := by
        rw [← htype]
        unfold getSignatureType beAt
        rw [if_pos (by omega), if_pos (by omega), slice, slice, List.drop_zero, List.drop_zero,
          List.take_take, Nat.min_eq_left (by omega)]
      refine ⟨_, rfl, fun _ => ⟨?_, ?_, ?_⟩⟩
      · rw [hlength]
        omega
      · rw [hlength]
        exact hle
      · unfold getName getSignatureSize
        dsimp only
        rw [hcut]
        dsimp only [Option.map_some, Option.bind_eq_bind, Option.bind_some, bind]
        rw [bytesAt_of_le (by omega)]
        exact ⟨_, rfl⟩

end CertReader

theorem parseCertChainLoop_inside {chain : Bytes} {rounds processed : Nat}
    (certs : List (Bytes × CertReader)) (hprocessed : processed ≤ chain.length)
    (hrounds : chain.length < processed + rounds) :
    ∃ certs', parseCertChainLoop chain rounds processed certs = some certs' := by
  induction rounds generalizing processed certs with
  | zero => omega
  | succ rounds ih =>
    unfold parseCertChainLoop
    split
    case isTrue => exact ⟨certs, rfl⟩
    case isFalse =>
      rw [if_neg (by omega)]
      obtain ⟨cert, hcert, hwhole⟩ := CertReader.certReader_inside (chain.drop processed)
      rw [hcert]
      dsimp only [Option.bind_eq_bind, Option.bind_some, bind]
      cases hvalid : cert.isValid with
      | false => exact ⟨certs, rfl⟩
      | true =>
        obtain ⟨hpositive, hle, name, hname⟩ := hwhole hvalid
        rw [List.length_drop] at hle
        rw [if_neg (by decide), hname]
        exact ih _ (by omega) (by omega)

theorem parseCertChain_inside (chain : Bytes) : ∃ certs, parseCertChain chain = some certs :=
  parseCertChainLoop_inside [] (Nat.zero_le _) (by omega)

/-! ### Rows of tickets -/

namespace TicketReader

def ticketId (ticket : Bytes) : Nat := readBE (slice ticket ticketIdOffset 8)

/-- Tickets of one size that are as long as their header, one after the other. -/
structure Row (size : Nat) (tickets : List Bytes) : Prop where
  header : ticketSize ≤ size
  length : ∀ ticket ∈ tickets, ticket.length = size

theorem row_of_length {size n : Nat} (hheader : ticketSize ≤ size) {bytes : Bytes}
    (h : bytes.length = n * size) :
    ∃ tickets, Row size tickets ∧ tickets.length = n ∧ tickets.flatten = bytes := by
  induction n generalizing bytes with
  | zero => exact ⟨[], ⟨hheader, nofun⟩, rfl, (List.length_eq_zero_iff.1 (by omega)).symm⟩
  | succ n ih =>
    rw [Nat.succ_mul] at h
    obtain ⟨tickets, hrow, hcount, hbytes⟩ := @ih (bytes.drop size) (by
      rw [List.length_drop]
      omega)
    refine ⟨bytes.take size :: tickets, ⟨hheader, ?_⟩, by rw [List.length_cons, hcount], ?_⟩
    · refine List.forall_mem_cons.2 ⟨?_, hrow.length⟩
      rw [List.length_take]
      omega
    · rw [List.flatten_cons, hbytes, List.take_append_drop]

variable {size : Nat} {before tickets : List Bytes} {ticket bytes : Bytes}

theorem Row.length_flatten (h : Row size tickets) :
    tickets.flatten.length = size * tickets.length := by
  induction tickets with
  | nil => rfl
  | cons ticket tickets ih =>
    rw [List.flatten_cons, List.length_append, h.length ticket List.mem_cons_self,
      ih ⟨h.header, fun t ht => h.length t (List.mem_cons_of_mem _ ht)⟩, List.length_cons,
      Nat.mul_succ, Nat.add_comm]

theorem Row.at_ticket (h : Row size (before ++ ticket :: tickets)) :
    bytesAt (before ++ ticket :: tickets).flatten (size * before.length) size = some ticket ∧
      ∀ offset width, offset + width ≤ size →
        beAt (before ++ ticket :: tickets).flatten (size * before.length + offset) width =
          some (readBE (slice ticket offset width)) := by
  have hbefore : before.flatten.length = size * before.length :=
    Row.length_flatten ⟨h.header, fun t ht => h.length t (List.mem_append_left _ ht)⟩
  have hticket : ticket.length = size :=
    h.length ticket (List.mem_append_right _ List.mem_cons_self)
  rw [List.flatten_append, List.flatten_cons, ← hbefore]
  constructor
  · rw [bytesAt_of_le (by simp only [List.length_append]; omega), ← hticket, slice_middle]
  · intro offset width hinside
    unfold beAt
    rw [if_pos (by simp only [List.length_append]; omega),
      slice_middle_of_le _ _ (hticket.symm ▸ hinside)]

theorem findRawTicket_row (before : List Bytes)
    (hsize : getTicketSize (before ++ tickets).flatten = some size)
    (h : Row size (before ++ tickets)) (ticketIdToFind : Nat) :
    findRawTicket (before ++ tickets).flatten ticketIdToFind tickets.length before.length =
      some ((tickets.find? fun ticket => ticketId ticket = ticketIdToFind).getD []) := by
  induction tickets generalizing before with
  | nil => rfl
  | cons ticket tickets ih =>
    obtain ⟨hticket, hnumber⟩ := h.at_ticket
    have hheader : 0x2a4 ≤ size := h.header
    have hid := hnumber ticketIdOffset 8 (by unfold ticketIdOffset; omega)
    rw [List.length_cons, findRawTicket, hsize]
    dsimp only [Option.bind_eq_bind, Option.bind_some, bind]
    rw [hid, Option.bind_some, hticket, List.find?_cons]
    change (if ticketId ticket = ticketIdToFind then _ else _) = _
    by_cases hfound : ticketId ticket = ticketIdToFind
    · rw [if_pos hfound, decide_eq_true hfound]
      rfl
    · rw [if_neg hfound, decide_eq_false hfound]
      have hrest := ih (before ++ [ticket])
      rw [List.append_assoc, List.singleton_append, List.length_append, List.length_singleton]
        at hrest
      exact hrest hsize h

theorem ticketsWithout_row (before : List Bytes)
    (hsize : getTicketSize (before ++ tickets).flatten = some size)
    (h : Row size (before ++ tickets)) (ticketIdToDelete : Nat) :
    ticketsWithout (before ++ tickets).flatten ticketIdToDelete tickets.length before.length =
      some (tickets.filter fun ticket => ticketId ticket ≠ ticketIdToDelete).flatten := by
  induction tickets generalizing before with
  | nil => rfl
  | cons ticket tickets ih =>
    obtain ⟨hticket, hnumber⟩ := h.at_ticket
    have hheader : 0x2a4 ≤ size := h.header
    have hid := hnumber ticketIdOffset 8 (by unfold ticketIdOffset; omega)
    have hrest := ih (before ++ [ticket])
    rw [List.append_assoc, List.singleton_append, List.length_append, List.length_singleton]
      at hrest
    rw [List.length_cons, ticketsWithout, hsize]
    dsimp only [Option.bind_eq_bind, Option.bind_some, bind]
    rw [hid, Option.bind_some, hticket, hrest hsize h]
    change (if ticketId ticket = ticketIdToDelete then _ else _) = _
    by_cases hdelete : ticketId ticket = ticketIdToDelete
    · rw [if_pos hdelete, List.filter_cons_of_neg (by simpa using hdelete)]
    · rw [if_neg hdelete, List.filter_cons_of_pos (by simpa using hdelete), List.flatten_cons]
      rfl

structure ReadAs (bytes : Bytes) (size : Nat) (tickets : List Bytes) : Prop where
  length : ∀ ticket ∈ tickets, ticket.length = size
  flatten : tickets.flatten = bytes
  getNumberOfTickets : getNumberOfTickets bytes = some tickets.length
  getTicketSize : getTicketSize bytes = some size
  getRawTicket : ∀ ticketIdToFind, getRawTicket bytes ticketIdToFind =
    some ((tickets.find? fun ticket => ticketId ticket = ticketIdToFind).getD [])
  deleteTicket : ∀ ticketIdToDelete, deleteTicket bytes ticketIdToDelete =
    some (tickets.filter fun ticket => ticketId ticket ≠ ticketIdToDelete).flatten
  getRawTicketView : ∀ ticketNum < tickets.length,
    ∃ view, getRawTicketView bytes ticketNum = some view

theorem readAs_of_row {bytes : Bytes} {size : Nat} {tickets : List Bytes} (h : Row size tickets)
    (hbytes : tickets.flatten = bytes) (hsize : getTicketSize bytes = some size)
    (hcount : getNumberOfTickets bytes = some tickets.length) (hlong : 0 < bytes.length) :
    ReadAs bytes size tickets := by
  subst hbytes
  have hlength := h.length_flatten
  have hheader : 0x2a4 ≤ size := h.header
  refine ⟨h.length, rfl, hcount, hsize, fun id => ?_, fun id => ?_, fun num hnum => ?_⟩
  · unfold getRawTicket
    rw [hcount]
    exact findRawTicket_row [] hsize h id
  · unfold deleteTicket
    rw [hcount]
    exact ticketsWithout_row [] hsize h id
  · have hfits : size * (num + 1) ≤ size * tickets.length := Nat.mul_le_mul_left _ hnum
    have hstart : 0x2a4 * num ≤ size * num := Nat.mul_le_mul_right _ hheader
    rw [Nat.mul_succ] at hfits
    obtain ⟨version, hversion⟩ : ∃ version, beAt tickets.flatten versionOffset 1 = some version :=
      beAt_isSome (by unfold versionOffset; omega)
    unfold getRawTicketView getVersion
    rw [hversion]
    dsimp only [Option.bind_eq_bind, Option.bind_some, bind]
    rw [bytesAt_of_le (by unfold ticketSize ticketIdOffset viewRest; omega)]
    exact ⟨_, rfl⟩

/-- The version is inside, and the size of a ticket of version 1 as well. -/
def HasHeader (bytes : Bytes) : Prop :=
  0x1bc < bytes.length ∧ (bytes[0x1bc]? = some 1 → 0x2ac ≤ bytes.length)

instance (bytes : Bytes) : Decidable (HasHeader bytes) :=
  inferInstanceAs (Decidable (_ ∧ (_ → _)))

theorem isV1Ticket_of_long {bytes : Bytes} (h : 0x1bc < bytes.length) :
    isV1Ticket bytes = some (decide (bytes[0x1bc]? = some 1)) := by
  have hbyte : slice bytes 0x1bc 1 = [bytes[0x1bc]] := by
    unfold slice
    rw [List.drop_eq_getElem_cons h]
    rfl
  unfold isV1Ticket getVersion beAt versionOffset
  rw [if_pos (by omega), hbyte, List.getElem?_eq_getElem h]
  simp [readBE, ← UInt8.toNat_inj]

theorem isV1Ticket_of_short {bytes : Bytes} (h : ¬ 0x1bc < bytes.length) :
    isV1Ticket bytes = none := by
  unfold isV1Ticket getVersion beAt versionOffset
  rw [if_neg (by omega), Option.map_none]

theorem isValid_of_signature {bytes : Bytes} (h : isSignatureValid bytes = some true) :
    isValid bytes = (do
      let v1 ← isV1Ticket bytes
      if v1 then
        let size ← getTicketSize bytes
        return decide (bytes.length = size)
      else return decide (bytes.length % ticketSize = 0)) := by
  have hlong : bytes.isEmpty = false := by
    cases bytes with
    | nil => cases h
    | cons => rfl
  unfold isValid
  rw [h, hlong]
  rfl

theorem getTicketSize_v1 {bytes : Bytes} (h : isV1Ticket bytes = some true) :
    (∃ size, getTicketSize bytes = some size) ↔ 0x2ac ≤ bytes.length := by
  unfold getTicketSize
  rw [h, Option.bind_eq_bind, Option.bind_some, if_pos rfl]
  unfold beAt v1SizeOffset ticketSize
  by_cases hlong : 0x2ac ≤ bytes.length
  · rw [if_pos (by omega)]
    exact ⟨fun _ => hlong, fun _ => ⟨_, rfl⟩⟩
  · rw [if_neg (by omega)]
    exact ⟨fun ⟨_, h⟩ => (nomatch h), fun h => absurd h hlong⟩

theorem isValid_inside {bytes : Bytes} (h : isSignatureValid bytes = some true) :
    (∃ valid, isValid bytes = some valid) ↔ HasHeader bytes := by
  rw [isValid_of_signature h]
  by_cases hlong : 0x1bc < bytes.length
  case neg =>
    rw [isV1Ticket_of_short hlong]
    exact ⟨fun ⟨_, h⟩ => (nomatch h), fun h => absurd h.1 hlong⟩
  case pos =>
    have hisV1 := isV1Ticket_of_long hlong
    rw [hisV1, Option.bind_eq_bind, Option.bind_some]
    by_cases hv1 : bytes[0x1bc]? = some 1
    case neg =>
      rw [decide_eq_false hv1, if_neg (by decide)]
      exact ⟨fun _ => ⟨hlong, fun h => absurd h hv1⟩, fun _ => ⟨_, rfl⟩⟩
    case pos =>
      rw [decide_eq_true hv1] at hisV1 ⊢
      rw [if_pos rfl]
      constructor
      · rintro ⟨valid, hvalid⟩
        obtain ⟨size, hsize, -⟩ := Option.bind_eq_some_iff.1 hvalid
        exact ⟨hlong, fun _ => (getTicketSize_v1 hisV1).1 ⟨size, hsize⟩⟩
      · rintro ⟨-, hheader⟩
        obtain ⟨size, hsize⟩ := (getTicketSize_v1 hisV1).2 (hheader hv1)
        rw [hsize]
        exact ⟨_, rfl⟩

theorem readAs_of_isValid {bytes : Bytes} (h : isValid bytes = some true) :
    ∃ size tickets, ReadAs bytes size tickets := by
  obtain ⟨signature, hsignature⟩ := isSignatureValid_inside bytes
  cases signature with
  | false =>
    unfold isValid at h
    rw [hsignature] at h
    cases h
  | true =>
    obtain ⟨hlong, hv1long⟩ := (isValid_inside hsignature).1 ⟨true, h⟩
    rw [isValid_of_signature hsignature, isV1Ticket_of_long hlong] at h
    by_cases hv1 : bytes[0x1bc]? = some 1
    case pos =>
      have hlength := hv1long hv1
      have hisV1 := isV1Ticket_of_long hlong
      rw [decide_eq_true hv1] at h hisV1
      obtain ⟨size, hsize⟩ := (getTicketSize_v1 hisV1).2 hlength
      obtain rfl : bytes.length = size := by
        rw [Option.bind_eq_bind, Option.bind_some, if_pos rfl, hsize] at h
        exact of_decide_eq_true (Option.some.inj h)
      refine ⟨bytes.length, [bytes], readAs_of_row ⟨by unfold ticketSize; omega, ?_⟩ ?_ hsize ?_
        (by omega)⟩
      · exact List.forall_mem_singleton.2 rfl
      · exact List.flatten_singleton
      · unfold getNumberOfTickets
        rw [hisV1]
        rfl
    case neg =>
      have hisV1 := isV1Ticket_of_long hlong
      rw [decide_eq_false hv1] at h hisV1
      have hwhole : bytes.length % ticketSize = 0 := by
        rw [Option.bind_eq_bind, Option.bind_some, if_neg (by decide)] at h
        exact of_decide_eq_true (Option.some.inj h)
      have hlength : bytes.length = bytes.length / ticketSize * ticketSize :=
        (Nat.div_mul_cancel (Nat.dvd_of_mod_eq_zero hwhole)).symm
      obtain ⟨tickets, hrow, hcount, hbytes⟩ := row_of_length (Nat.le_refl _) hlength
      refine ⟨ticketSize, tickets, readAs_of_row hrow hbytes ?_ ?_ (by omega)⟩
      · unfold getTicketSize
        rw [hisV1]
        rfl
      · unfold getNumberOfTickets
        rw [hisV1, hcount]
        rfl

end TicketReader

structure ReadsInside (bytes : Bytes) : Prop where
  ticket : ∃ valid, TicketReader.isValid bytes = some valid
  tmd : ∃ valid, TMDReader.isValid bytes = some valid
  certificate : ∃ cert, CertReader.ofBytes bytes = some cert
  chain : ∃ certs, parseCertChain bytes = some certs
  tickets : TicketReader.isValid bytes = some true →
    ∃ size tickets, TicketReader.ReadAs bytes size tickets

/-- Bytes whose signature is of a known type and all there are the only ones where the version or
    the size of a ticket can be outside. -/
theorem reads_inside (bytes : Bytes) :
    ReadsInside bytes ↔
      ∀ type, getSignatureType bytes = some (some type) →
        signatureSizeOf (some type) ≤ bytes.length → TicketReader.HasHeader bytes := by
  constructor
  · intro h type htype hsize
    exact (TicketReader.isValid_inside (valid_of_signature htype hsize)).1 h.ticket
  · intro h
    obtain ⟨signature, hsignature⟩ := isSignatureValid_inside bytes
    obtain ⟨cert, hcert, -⟩ := CertReader.certReader_inside bytes
    have hticket : ∃ valid, TicketReader.isValid bytes = some valid := by
      cases signature with
      | false =>
        unfold TicketReader.isValid
        rw [hsignature]
        exact ⟨false, rfl⟩
      | true =>
        obtain ⟨type, htype, hsize⟩ := signature_of_valid hsignature
        exact (TicketReader.isValid_inside hsignature).2 (h type htype hsize)
    exact ⟨hticket, tmd_inside bytes, ⟨cert, hcert⟩, parseCertChain_inside bytes,
      TicketReader.readAs_of_isValid⟩

/-- The bytes of a signature alone are no ticket, but its version is looked for. -/
def signatureAlone : Bytes := be 4 0x10002 ++ List.replicate 0xbc 0

theorem signatureAlone_outside : ¬ ReadsInside signatureAlone := by
  intro h
  obtain ⟨valid, hvalid⟩ := h.ticket
  have hnone : TicketReader.isValid signatureAlone = none := by decide +kernel
  rw [hnone] at hvalid
  cases hvalid

end DolphinXR.IOS.ES
