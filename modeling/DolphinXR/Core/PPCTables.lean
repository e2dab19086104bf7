import DolphinXR.Core.PowerPCState

/- The instruction tables of Core/PowerPC/PPCTables.cpp: what each instruction is called, of what
   type it is and what its flags say that it uses, and how an instruction is looked up. The
   numbers of cycles are left out. -/
namespace DolphinXR.PowerPC

namespace UGeckoInstruction
variable (inst : UGeckoInstruction)

def opcd : Nat := (inst.extractLsb' 26 6).toNat
def subop10 : Nat := (inst.extractLsb' 1 10).toNat
def subop5 : Nat := (inst.extractLsb' 1 5).toNat

end UGeckoInstruction

namespace PPCTables

/-! The flags. -/

abbrev InstructionFlags := BitVec 64

def flSetCr0 : InstructionFlags := 1#64 <<< 0
def flSetCr1 : InstructionFlags := 1#64 <<< 1
def flSetCrn : InstructionFlags := 1#64 <<< 2
def flSetCa : InstructionFlags := 1#64 <<< 3
def flReadCa : InstructionFlags := 1#64 <<< 4
def flRcBit : InstructionFlags := 1#64 <<< 5
def flRcBitF : InstructionFlags := 1#64 <<< 6
def flEndblock : InstructionFlags := 1#64 <<< 7
def flInA : InstructionFlags := 1#64 <<< 8
def flInA0 : InstructionFlags := 1#64 <<< 9
def flInB : InstructionFlags := 1#64 <<< 10
def flInC : InstructionFlags := 1#64 <<< 11
def flInS : InstructionFlags := 1#64 <<< 12
def flOutD : InstructionFlags := 1#64 <<< 13
def flOutA : InstructionFlags := 1#64 <<< 14
def flTimer : InstructionFlags := 1#64 <<< 15
def flCheckexceptions : InstructionFlags := 1#64 <<< 16
def flNoReorder : InstructionFlags := 1#64 <<< 17
def flUseFpu : InstructionFlags := 1#64 <<< 18
def flLoadstore : InstructionFlags := 1#64 <<< 19
def flSetFprf : InstructionFlags := 1#64 <<< 20
def flReadFprf : InstructionFlags := 1#64 <<< 21
def flSetOe : InstructionFlags := 1#64 <<< 22
def flInFloatA : InstructionFlags := 1#64 <<< 23
def flInFloatB : InstructionFlags := 1#64 <<< 24
def flInFloatC : InstructionFlags := 1#64 <<< 25
def flInFloatS : InstructionFlags := 1#64 <<< 26
def flInFloatD : InstructionFlags := 1#64 <<< 27
def flOutFloatD : InstructionFlags := 1#64 <<< 28
def flInFloatABitexact : InstructionFlags := 1#64 <<< 29
def flInFloatBBitexact : InstructionFlags := 1#64 <<< 30
def flInFloatCBitexact : InstructionFlags := 1#64 <<< 31
def flProgramexception : InstructionFlags := 1#64 <<< 32
def flFloatException : InstructionFlags := 1#64 <<< 33
def flFloatDiv : InstructionFlags := 1#64 <<< 34
def flSetAllCr : InstructionFlags := 1#64 <<< 35
def flReadCrn : InstructionFlags := 1#64 <<< 36
def flReadCrBi : InstructionFlags := 1#64 <<< 37
def flReadAllCr : InstructionFlags := 1#64 <<< 38
def flSetMsr : InstructionFlags := 1#64 <<< 39

def flInAb : InstructionFlags := flInA ||| flInB
def flInSb : InstructionFlags := flInS ||| flInB
def flInA0b : InstructionFlags := flInA0 ||| flInB
def flInFloatAb : InstructionFlags := flInFloatA ||| flInFloatB
def flInFloatAc : InstructionFlags := flInFloatA ||| flInFloatC
def flInFloatAbc : InstructionFlags := flInFloatA ||| flInFloatB ||| flInFloatC
def flInoutFloatD : InstructionFlags := flInFloatD ||| flOutFloatD
def flInFloatAbBitexact : InstructionFlags := flInFloatABitexact ||| flInFloatBBitexact
def flInFloatBcBitexact : InstructionFlags := flInFloatBBitexact ||| flInFloatCBitexact

inductive OpType where
  | subtable | integer | cr | spr | system | systemFP | load | store | loadFP | storeFP
  | doubleFP | singleFP | loadPS | storePS | ps | dataCache | instructionCache | branch | unknown
  deriving DecidableEq

structure GekkoOPInfo where
  opname : String
  type : OpType
  flags : InstructionFlags
  deriving DecidableEq

def GekkoOPInfo.has (info : GekkoOPInfo) (flags : InstructionFlags) : Bool :=
  info.flags &&& flags != 0

/-- `strncmp` with the name's first characters. -/
def GekkoOPInfo.isCalled (info : GekkoOPInfo) (name : String) : Bool :=
  name.toList.isPrefixOf info.opname.toList

structure GekkoOPTemplate extends GekkoOPInfo where
  opcode : Nat

def unknownOpInfo : GekkoOPInfo := ⟨"unknown_instruction", .unknown, flEndblock⟩

/-! The tables. -/

def primaryTable : List GekkoOPTemplate := [
  ⟨⟨"RunTable4", .subtable, 0⟩, 4⟩,
  ⟨⟨"RunTable19", .subtable, 0⟩, 19⟩,
  ⟨⟨"RunTable31", .subtable, 0⟩, 31⟩,
  ⟨⟨"RunTable59", .subtable, 0⟩, 59⟩,
  ⟨⟨"RunTable63", .subtable, 0⟩, 63⟩,
  ⟨⟨"bcx", .branch, flEndblock ||| flReadCrBi⟩, 16⟩,
  ⟨⟨"bx", .branch, flEndblock⟩, 18⟩,
  ⟨⟨"twi", .system, flInA ||| flEndblock⟩, 3⟩,
  ⟨⟨"sc", .system, flEndblock⟩, 17⟩,
  ⟨⟨"mulli", .integer, flOutD ||| flInA⟩, 7⟩,
  ⟨⟨"subfic", .integer, flOutD ||| flInA ||| flSetCa⟩, 8⟩,
  ⟨⟨"cmpli", .integer, flInA ||| flSetCrn⟩, 10⟩,
  ⟨⟨"cmpi", .integer, flInA ||| flSetCrn⟩, 11⟩,
  ⟨⟨"addic", .integer, flOutD ||| flInA ||| flSetCa⟩, 12⟩,
  ⟨⟨"addic_rc", .integer, flOutD ||| flInA ||| flSetCa ||| flSetCr0⟩, 13⟩,
  ⟨⟨"addi", .integer, flOutD ||| flInA0⟩, 14⟩,
  ⟨⟨"addis", .integer, flOutD ||| flInA0⟩, 15⟩,
  ⟨⟨"rlwimix", .integer, flOutA ||| flInA ||| flInS ||| flRcBit⟩, 20⟩,
  ⟨⟨"rlwinmx", .integer, flOutA ||| flInS ||| flRcBit⟩, 21⟩,
  ⟨⟨"rlwnmx", .integer, flOutA ||| flInSb ||| flRcBit⟩, 23⟩,
  ⟨⟨"ori", .integer, flOutA ||| flInS⟩, 24⟩,
  ⟨⟨"oris", .integer, flOutA ||| flInS⟩, 25⟩,
  ⟨⟨"xori", .integer, flOutA ||| flInS⟩, 26⟩,
  ⟨⟨"xoris", .integer, flOutA ||| flInS⟩, 27⟩,
  ⟨⟨"andi_rc", .integer, flOutA ||| flInS ||| flSetCr0⟩, 28⟩,
  ⟨⟨"andis_rc", .integer, flOutA ||| flInS ||| flSetCr0⟩, 29⟩,
  ⟨⟨"lwz", .load, flOutD ||| flInA0 ||| flLoadstore⟩, 32⟩,
  ⟨⟨"lwzu", .load, flOutD ||| flOutA ||| flInA ||| flLoadstore⟩, 33⟩,
  ⟨⟨"lbz", .load, flOutD ||| flInA0 ||| flLoadstore⟩, 34⟩,
  ⟨⟨"lbzu", .load, flOutD ||| flOutA ||| flInA ||| flLoadstore⟩, 35⟩,
  ⟨⟨"lhz", .load, flOutD ||| flInA0 ||| flLoadstore⟩, 40⟩,
  ⟨⟨"lhzu", .load, flOutD ||| flOutA ||| flInA ||| flLoadstore⟩, 41⟩,
  ⟨⟨"lha", .load, flOutD ||| flInA0 ||| flLoadstore⟩, 42⟩,
  ⟨⟨"lhau", .load, flOutD ||| flOutA ||| flInA ||| flLoadstore⟩, 43⟩,
  ⟨⟨"sth", .store, flInA0 ||| flInS ||| flLoadstore⟩, 44⟩,
  ⟨⟨"sthu", .store, flOutA ||| flInA ||| flInS ||| flLoadstore⟩, 45⟩,
  ⟨⟨"stw", .store, flInA0 ||| flInS ||| flLoadstore⟩, 36⟩,
  ⟨⟨"stwu", .store, flOutA ||| flInA ||| flInS ||| flLoadstore⟩, 37⟩,
  ⟨⟨"stb", .store, flInA0 ||| flInS ||| flLoadstore⟩, 38⟩,
  ⟨⟨"stbu", .store, flOutA ||| flInA ||| flInS ||| flLoadstore⟩, 39⟩,
  ⟨⟨"lmw", .system, flInA0 ||| flLoadstore⟩, 46⟩,
  ⟨⟨"stmw", .system, flInA0 ||| flLoadstore⟩, 47⟩,
  ⟨⟨"lfs", .loadFP, flOutFloatD ||| flInA ||| flUseFpu ||| flLoadstore⟩, 48⟩,
  ⟨⟨"lfsu", .loadFP, flOutFloatD ||| flOutA ||| flInA ||| flUseFpu ||| flLoadstore⟩, 49⟩,
  ⟨⟨"lfd", .loadFP, flInoutFloatD ||| flInA ||| flUseFpu ||| flLoadstore⟩, 50⟩,
  ⟨⟨"lfdu", .loadFP, flInoutFloatD ||| flOutA ||| flInA ||| flUseFpu ||| flLoadstore⟩, 51⟩,
  ⟨⟨"stfs", .storeFP, flInFloatS ||| flInA0 ||| flUseFpu ||| flLoadstore⟩, 52⟩,
  ⟨⟨"stfsu", .storeFP, flInFloatS ||| flOutA ||| flInA ||| flUseFpu ||| flLoadstore⟩, 53⟩,
  ⟨⟨"stfd", .storeFP, flInFloatS ||| flInA0 ||| flUseFpu ||| flLoadstore⟩, 54⟩,
  ⟨⟨"stfdu", .storeFP, flInFloatS ||| flOutA ||| flInA ||| flUseFpu ||| flLoadstore⟩, 55⟩,
  ⟨⟨"psq_l", .loadPS,
     flOutFloatD ||| flInA0 ||| flUseFpu ||| flLoadstore ||| flProgramexception⟩, 56⟩,
  ⟨⟨"psq_lu", .loadPS,
     flOutFloatD ||| flOutA ||| flInA ||| flUseFpu ||| flLoadstore ||| flProgramexception⟩, 57⟩,
  ⟨⟨"psq_st", .storePS,
     flInFloatS ||| flInA0 ||| flUseFpu ||| flLoadstore ||| flProgramexception⟩, 60⟩,
  ⟨⟨"psq_stu", .storePS,
     flInFloatS ||| flOutA ||| flInA ||| flUseFpu ||| flLoadstore ||| flProgramexception⟩, 61⟩]

def table4 : List GekkoOPTemplate := [
  ⟨⟨"ps_cmpu0", .ps,
     flInFloatAb ||| flSetCrn ||| flUseFpu ||| flReadFprf ||| flSetFprf ||| flProgramexception |||
     flFloatException⟩, 0⟩,
  ⟨⟨"ps_cmpo0", .ps,
     flInFloatAb ||| flSetCrn ||| flUseFpu ||| flReadFprf ||| flSetFprf ||| flProgramexception |||
     flFloatException⟩, 32⟩,
  ⟨⟨"ps_neg", .ps,
     flOutFloatD ||| flInFloatB ||| flInFloatBBitexact ||| flRcBitF ||| flUseFpu |||
     flProgramexception⟩, 40⟩,
  ⟨⟨"ps_nabs", .ps,
     flOutFloatD ||| flInFloatB ||| flInFloatBBitexact ||| flRcBitF ||| flUseFpu |||
     flProgramexception⟩, 136⟩,
  ⟨⟨"ps_abs", .ps,
     flOutFloatD ||| flInFloatB ||| flInFloatBBitexact ||| flRcBitF ||| flUseFpu |||
     flProgramexception⟩, 264⟩,
  ⟨⟨"ps_cmpu1", .ps,
     flInFloatAb ||| flSetCrn ||| flUseFpu ||| flReadFprf ||| flSetFprf ||| flProgramexception |||
     flFloatException⟩, 64⟩,
  ⟨⟨"ps_mr", .ps,
     flOutFloatD ||| flInFloatB ||| flInFloatBBitexact ||| flRcBitF ||| flUseFpu |||
     flProgramexception⟩, 72⟩,
  ⟨⟨"ps_cmpo1", .ps,
     flInFloatAb ||| flSetCrn ||| flUseFpu ||| flReadFprf ||| flSetFprf ||| flProgramexception |||
     flFloatException⟩, 96⟩,
  ⟨⟨"ps_merge00", .ps,
     flOutFloatD ||| flInFloatAb ||| flInFloatAbBitexact ||| flRcBitF ||| flUseFpu |||
     flProgramexception⟩, 528⟩,
  ⟨⟨"ps_merge01", .ps,
     flOutFloatD ||| flInFloatAb ||| flInFloatAbBitexact ||| flRcBitF ||| flUseFpu |||
     flProgramexception⟩, 560⟩,
  ⟨⟨"ps_merge10", .ps,
     flOutFloatD ||| flInFloatAb ||| flInFloatAbBitexact ||| flRcBitF ||| flUseFpu |||
     flProgramexception⟩, 592⟩,
  ⟨⟨"ps_merge11", .ps,
     flOutFloatD ||| flInFloatAb ||| flInFloatAbBitexact ||| flRcBitF ||| flUseFpu |||
     flProgramexception⟩, 624⟩,
  ⟨⟨"dcbz_l", .system, flInA0b ||| flLoadstore ||| flProgramexception⟩, 1014⟩]

/-- `s_table4_2`: by the lowest five bits of SUBOP10. -/
def table4Sub5 : List GekkoOPTemplate := [
  ⟨⟨"ps_sum0", .ps,
     flOutFloatD ||| flInFloatAbc ||| flRcBitF ||| flUseFpu ||| flSetFprf |||
     flProgramexception ||| flFloatException⟩, 10⟩,
  ⟨⟨"ps_sum1", .ps,
     flOutFloatD ||| flInFloatAbc ||| flRcBitF ||| flUseFpu ||| flSetFprf |||
     flProgramexception ||| flFloatException⟩, 11⟩,
  ⟨⟨"ps_muls0", .ps,
     flOutFloatD ||| flInFloatAc ||| flRcBitF ||| flUseFpu ||| flSetFprf ||| flProgramexception |||
     flFloatException⟩, 12⟩,
  ⟨⟨"ps_muls1", .ps,
     flOutFloatD ||| flInFloatAc ||| flRcBitF ||| flUseFpu ||| flSetFprf ||| flProgramexception |||
     flFloatException⟩, 13⟩,
  ⟨⟨"ps_madds0", .ps,
     flOutFloatD ||| flInFloatAbc ||| flRcBitF ||| flUseFpu ||| flSetFprf |||
     flProgramexception ||| flFloatException⟩, 14⟩,
  ⟨⟨"ps_madds1", .ps,
     flOutFloatD ||| flInFloatAbc ||| flRcBitF ||| flUseFpu ||| flSetFprf |||
     flProgramexception ||| flFloatException⟩, 15⟩,
  ⟨⟨"ps_div", .ps,
     flOutFloatD ||| flInFloatAb ||| flRcBitF ||| flUseFpu ||| flSetFprf ||| flProgramexception |||
     flFloatException ||| flFloatDiv⟩, 18⟩,
  ⟨⟨"ps_sub", .ps,
     flOutFloatD ||| flInFloatAb ||| flRcBitF ||| flUseFpu ||| flSetFprf ||| flProgramexception |||
     flFloatException⟩, 20⟩,
  ⟨⟨"ps_add", .ps,
     flOutFloatD ||| flInFloatAb ||| flRcBitF ||| flUseFpu ||| flSetFprf ||| flProgramexception |||
     flFloatException⟩, 21⟩,
  ⟨⟨"ps_sel", .ps,
     flOutFloatD ||| flInFloatAbc ||| flInFloatBcBitexact ||| flRcBitF ||| flUseFpu |||
     flProgramexception⟩, 23⟩,
  ⟨⟨"ps_res", .ps,
     flOutFloatD ||| flInFloatB ||| flRcBitF ||| flUseFpu ||| flSetFprf ||| flProgramexception |||
     flFloatException ||| flFloatDiv⟩, 24⟩,
  ⟨⟨"ps_mul", .ps,
     flOutFloatD ||| flInFloatAc ||| flRcBitF ||| flUseFpu ||| flSetFprf ||| flProgramexception |||
     flFloatException⟩, 25⟩,
  ⟨⟨"ps_rsqrte", .ps,
     flOutFloatD ||| flInFloatB ||| flRcBitF ||| flUseFpu ||| flSetFprf ||| flProgramexception |||
     flFloatException ||| flFloatDiv⟩, 26⟩,
  ⟨⟨"ps_msub", .ps,
     flOutFloatD ||| flInFloatAbc ||| flRcBitF ||| flUseFpu ||| flSetFprf |||
     flProgramexception ||| flFloatException⟩, 28⟩,
  ⟨⟨"ps_madd", .ps,
     flOutFloatD ||| flInFloatAbc ||| flRcBitF ||| flUseFpu ||| flSetFprf |||
     flProgramexception ||| flFloatException⟩, 29⟩,
  ⟨⟨"ps_nmsub", .ps,
     flOutFloatD ||| flInFloatAbc ||| flRcBitF ||| flUseFpu ||| flSetFprf |||
     flProgramexception ||| flFloatException⟩, 30⟩,
  ⟨⟨"ps_nmadd", .ps,
     flOutFloatD ||| flInFloatAbc ||| flRcBitF ||| flUseFpu ||| flSetFprf |||
     flProgramexception ||| flFloatException⟩, 31⟩]

/-- `s_table4_3`: by the lowest six bits of SUBOP10. -/
def table4Sub6 : List GekkoOPTemplate := [
  ⟨⟨"psq_lx", .loadPS, flOutFloatD ||| flInA0b ||| flUseFpu ||| flLoadstore⟩, 6⟩,
  ⟨⟨"psq_stx", .storePS, flInFloatS ||| flInA0b ||| flUseFpu ||| flLoadstore⟩, 7⟩,
  ⟨⟨"psq_lux", .loadPS, flOutFloatD ||| flOutA ||| flInAb ||| flUseFpu ||| flLoadstore⟩, 38⟩,
  ⟨⟨"psq_stux", .storePS, flInFloatS ||| flOutA ||| flInAb ||| flUseFpu ||| flLoadstore⟩, 39⟩]

def table19 : List GekkoOPTemplate := [
  ⟨⟨"bcctrx", .branch, flEndblock ||| flReadCrBi⟩, 528⟩,
  ⟨⟨"bclrx", .branch, flEndblock ||| flReadCrBi⟩, 16⟩,
  ⟨⟨"crand", .cr, 0⟩, 257⟩,
  ⟨⟨"crandc", .cr, 0⟩, 129⟩,
  ⟨⟨"creqv", .cr, 0⟩, 289⟩,
  ⟨⟨"crnand", .cr, 0⟩, 225⟩,
  ⟨⟨"crnor", .cr, 0⟩, 33⟩,
  ⟨⟨"cror", .cr, 0⟩, 449⟩,
  ⟨⟨"crorc", .cr, 0⟩, 417⟩,
  ⟨⟨"crxor", .cr, 0⟩, 193⟩,
  ⟨⟨"isync", .instructionCache, flNoReorder⟩, 150⟩,
  ⟨⟨"mcrf", .system, flSetCrn ||| flReadCrn⟩, 0⟩,
  ⟨⟨"rfi", .system, flEndblock ||| flCheckexceptions ||| flProgramexception ||| flSetMsr⟩, 50⟩]

def table31 : List GekkoOPTemplate := [
  ⟨⟨"addx", .integer, flOutD ||| flInAb ||| flRcBit⟩, 266⟩,
  ⟨⟨"addox", .integer, flOutD ||| flInAb ||| flRcBit ||| flSetOe⟩, 778⟩,
  ⟨⟨"addcx", .integer, flOutD ||| flInAb ||| flSetCa ||| flRcBit⟩, 10⟩,
  ⟨⟨"addcox", .integer, flOutD ||| flInAb ||| flSetCa ||| flRcBit ||| flSetOe⟩, 522⟩,
  ⟨⟨"addex", .integer, flOutD ||| flInAb ||| flReadCa ||| flSetCa ||| flRcBit⟩, 138⟩,
  ⟨⟨"addeox", .integer, flOutD ||| flInAb ||| flReadCa ||| flSetCa ||| flRcBit ||| flSetOe⟩, 650⟩,
  ⟨⟨"addmex", .integer, flOutD ||| flInA ||| flReadCa ||| flSetCa ||| flRcBit⟩, 234⟩,
  ⟨⟨"addmeox", .integer, flOutD ||| flInA ||| flReadCa ||| flSetCa ||| flRcBit ||| flSetOe⟩, 746⟩,
  ⟨⟨"addzex", .integer, flOutD ||| flInA ||| flReadCa ||| flSetCa ||| flRcBit⟩, 202⟩,
  ⟨⟨"addzeox", .integer, flOutD ||| flInA ||| flReadCa ||| flSetCa ||| flRcBit ||| flSetOe⟩, 714⟩,
  ⟨⟨"divwx", .integer, flOutD ||| flInAb ||| flRcBit⟩, 491⟩,
  ⟨⟨"divwox", .integer, flOutD ||| flInAb ||| flRcBit ||| flSetOe⟩, 1003⟩,
  ⟨⟨"divwux", .integer, flOutD ||| flInAb ||| flRcBit⟩, 459⟩,
  ⟨⟨"divwuox", .integer, flOutD ||| flInAb ||| flRcBit ||| flSetOe⟩, 971⟩,
  ⟨⟨"mulhwx", .integer, flOutD ||| flInAb ||| flRcBit⟩, 75⟩,
  ⟨⟨"mulhwux", .integer, flOutD ||| flInAb ||| flRcBit⟩, 11⟩,
  ⟨⟨"mullwx", .integer, flOutD ||| flInAb ||| flRcBit⟩, 235⟩,
  ⟨⟨"mullwox", .integer, flOutD ||| flInAb ||| flRcBit ||| flSetOe⟩, 747⟩,
  ⟨⟨"negx", .integer, flOutD ||| flInA ||| flRcBit⟩, 104⟩,
  ⟨⟨"negox", .integer, flOutD ||| flInA ||| flRcBit ||| flSetOe⟩, 616⟩,
  ⟨⟨"subfx", .integer, flOutD ||| flInAb ||| flRcBit⟩, 40⟩,
  ⟨⟨"subfox", .integer, flOutD ||| flInAb ||| flRcBit ||| flSetOe⟩, 552⟩,
  ⟨⟨"subfcx", .integer, flOutD ||| flInAb ||| flSetCa ||| flRcBit⟩, 8⟩,
  ⟨⟨"subfcox", .integer, flOutD ||| flInAb ||| flSetCa ||| flRcBit ||| flSetOe⟩, 520⟩,
  ⟨⟨"subfex", .integer, flOutD ||| flInAb ||| flReadCa ||| flSetCa ||| flRcBit⟩, 136⟩,
  ⟨⟨"subfeox", .integer, flOutD ||| flInAb ||| flReadCa ||| flSetCa ||| flRcBit ||| flSetOe⟩, 648⟩,
  ⟨⟨"subfmex", .integer, flOutD ||| flInA ||| flReadCa ||| flSetCa ||| flRcBit⟩, 232⟩,
  ⟨⟨"subfmeox", .integer, flOutD ||| flInA ||| flReadCa ||| flSetCa ||| flRcBit ||| flSetOe⟩, 744⟩,
  ⟨⟨"subfzex", .integer, flOutD ||| flInA ||| flReadCa ||| flSetCa ||| flRcBit⟩, 200⟩,
  ⟨⟨"subfzeox", .integer, flOutD ||| flInA ||| flReadCa ||| flSetCa ||| flRcBit ||| flSetOe⟩, 712⟩,
  ⟨⟨"andx", .integer, flOutA ||| flInSb ||| flRcBit⟩, 28⟩,
  ⟨⟨"andcx", .integer, flOutA ||| flInSb ||| flRcBit⟩, 60⟩,
  ⟨⟨"orx", .integer, flOutA ||| flInSb ||| flRcBit⟩, 444⟩,
  ⟨⟨"norx", .integer, flOutA ||| flInSb ||| flRcBit⟩, 124⟩,
  ⟨⟨"xorx", .integer, flOutA ||| flInSb ||| flRcBit⟩, 316⟩,
  ⟨⟨"orcx", .integer, flOutA ||| flInSb ||| flRcBit⟩, 412⟩,
  ⟨⟨"nandx", .integer, flOutA ||| flInSb ||| flRcBit⟩, 476⟩,
  ⟨⟨"eqvx", .integer, flOutA ||| flInSb ||| flRcBit⟩, 284⟩,
  ⟨⟨"cmp", .integer, flInAb ||| flSetCrn⟩, 0⟩,
  ⟨⟨"cmpl", .integer, flInAb ||| flSetCrn⟩, 32⟩,
  ⟨⟨"cntlzwx", .integer, flOutA ||| flInS ||| flRcBit⟩, 26⟩,
  ⟨⟨"extshx", .integer, flOutA ||| flInS ||| flRcBit⟩, 922⟩,
  ⟨⟨"extsbx", .integer, flOutA ||| flInS ||| flRcBit⟩, 954⟩,
  ⟨⟨"srwx", .integer, flOutA ||| flInSb ||| flRcBit⟩, 536⟩,
  ⟨⟨"srawx", .integer, flOutA ||| flInSb ||| flSetCa ||| flRcBit⟩, 792⟩,
  ⟨⟨"srawix", .integer, flOutA ||| flInS ||| flSetCa ||| flRcBit⟩, 824⟩,
  ⟨⟨"slwx", .integer, flOutA ||| flInSb ||| flRcBit⟩, 24⟩,
  ⟨⟨"dcbst", .dataCache, flInA0b ||| flLoadstore⟩, 54⟩,
  ⟨⟨"dcbf", .dataCache, flInA0b ||| flLoadstore⟩, 86⟩,
  ⟨⟨"dcbtst", .dataCache, 0⟩, 246⟩,
  ⟨⟨"dcbt", .dataCache, 0⟩, 278⟩,
  ⟨⟨"dcbi", .dataCache, flInA0b ||| flLoadstore ||| flProgramexception⟩, 470⟩,
  ⟨⟨"dcba", .dataCache, 0⟩, 758⟩,
  ⟨⟨"dcbz", .dataCache, flInA0b ||| flLoadstore⟩, 1014⟩,
  ⟨⟨"lwzx", .load, flOutD ||| flInA0b ||| flLoadstore⟩, 23⟩,
  ⟨⟨"lwzux", .load, flOutD ||| flOutA ||| flInAb ||| flLoadstore⟩, 55⟩,
  ⟨⟨"lhzx", .load, flOutD ||| flInA0b ||| flLoadstore⟩, 279⟩,
  ⟨⟨"lhzux", .load, flOutD ||| flOutA ||| flInAb ||| flLoadstore⟩, 311⟩,
  ⟨⟨"lhax", .load, flOutD ||| flInA0b ||| flLoadstore⟩, 343⟩,
  ⟨⟨"lhaux", .load, flOutD ||| flOutA ||| flInAb ||| flLoadstore⟩, 375⟩,
  ⟨⟨"lbzx", .load, flOutD ||| flInA0b ||| flLoadstore⟩, 87⟩,
  ⟨⟨"lbzux", .load, flOutD ||| flOutA ||| flInAb ||| flLoadstore⟩, 119⟩,
  ⟨⟨"lwbrx", .load, flOutD ||| flInA0b ||| flLoadstore⟩, 534⟩,
  ⟨⟨"lhbrx", .load, flOutD ||| flInA0b ||| flLoadstore⟩, 790⟩,
  ⟨⟨"stwcxd", .store, flInS ||| flInA0b ||| flSetCr0 ||| flLoadstore⟩, 150⟩,
  ⟨⟨"lwarx", .load, flOutD ||| flInA0b ||| flSetCr0 ||| flLoadstore⟩, 20⟩,
  ⟨⟨"lswx", .load, flInA0b ||| flOutD ||| flLoadstore⟩, 533⟩,
  ⟨⟨"lswi", .load, flInA0 ||| flOutD ||| flLoadstore⟩, 597⟩,
  ⟨⟨"stwx", .store, flInS ||| flInA0b ||| flLoadstore⟩, 151⟩,
  ⟨⟨"stwux", .store, flInS ||| flOutA ||| flInAb ||| flLoadstore⟩, 183⟩,
  ⟨⟨"sthx", .store, flInS ||| flInA0b ||| flLoadstore⟩, 407⟩,
  ⟨⟨"sthux", .store, flInS ||| flOutA ||| flInAb ||| flLoadstore⟩, 439⟩,
  ⟨⟨"stbx", .store, flInS ||| flInA0b ||| flLoadstore⟩, 215⟩,
  ⟨⟨"stbux", .store, flInS ||| flOutA ||| flInAb ||| flLoadstore⟩, 247⟩,
  ⟨⟨"stwbrx", .store, flInS ||| flInA0b ||| flLoadstore⟩, 662⟩,
  ⟨⟨"sthbrx", .store, flInS ||| flInA0b ||| flLoadstore⟩, 918⟩,
  ⟨⟨"stswx", .store, flInA0b ||| flLoadstore⟩, 661⟩,
  ⟨⟨"stswi", .store, flInA0 ||| flLoadstore⟩, 725⟩,
  ⟨⟨"lfsx", .loadFP, flOutFloatD ||| flInA0b ||| flUseFpu ||| flLoadstore⟩, 535⟩,
  ⟨⟨"lfsux", .loadFP, flOutFloatD ||| flInAb ||| flOutA ||| flUseFpu ||| flLoadstore⟩, 567⟩,
  ⟨⟨"lfdx", .loadFP, flInoutFloatD ||| flInA0b ||| flUseFpu ||| flLoadstore⟩, 599⟩,
  ⟨⟨"lfdux", .loadFP, flInoutFloatD ||| flInAb ||| flOutA ||| flUseFpu ||| flLoadstore⟩, 631⟩,
  ⟨⟨"stfsx", .storeFP, flInFloatS ||| flInA0b ||| flUseFpu ||| flLoadstore⟩, 663⟩,
  ⟨⟨"stfsux", .storeFP, flInFloatS ||| flInAb ||| flOutA ||| flUseFpu ||| flLoadstore⟩, 695⟩,
  ⟨⟨"stfdx", .storeFP, flInFloatS ||| flInA0b ||| flUseFpu ||| flLoadstore⟩, 727⟩,
  ⟨⟨"stfdux", .storeFP, flInFloatS ||| flInAb ||| flOutA ||| flUseFpu ||| flLoadstore⟩, 759⟩,
  ⟨⟨"stfiwx", .storeFP, flInFloatS ||| flInA0b ||| flUseFpu ||| flLoadstore⟩, 983⟩,
  ⟨⟨"mfcr", .system, flOutD ||| flReadAllCr⟩, 19⟩,
  ⟨⟨"mfmsr", .system, flOutD ||| flProgramexception⟩, 83⟩,
  ⟨⟨"mtcrf", .system, flInS ||| flSetAllCr ||| flReadAllCr⟩, 144⟩,
  ⟨⟨"mtmsr", .system,
     flInS ||| flEndblock ||| flProgramexception ||| flFloatException ||| flSetMsr⟩, 146⟩,
  ⟨⟨"mtsr", .system, flInS ||| flProgramexception⟩, 210⟩,
  ⟨⟨"mtsrin", .system, flInSb ||| flProgramexception⟩, 242⟩,
  ⟨⟨"mfspr", .spr, flOutD ||| flProgramexception⟩, 339⟩,
  ⟨⟨"mtspr", .spr, flInS ||| flEndblock ||| flProgramexception⟩, 467⟩,
  ⟨⟨"mftb", .system, flOutD ||| flTimer ||| flProgramexception⟩, 371⟩,
  ⟨⟨"mcrxr", .system, flSetCrn ||| flReadCa ||| flSetCa⟩, 512⟩,
  ⟨⟨"mfsr", .system, flOutD ||| flProgramexception⟩, 595⟩,
  ⟨⟨"mfsrin", .system, flOutD ||| flInB ||| flProgramexception⟩, 659⟩,
  ⟨⟨"tw", .system, flInAb ||| flEndblock⟩, 4⟩,
  ⟨⟨"sync", .system, 0⟩, 598⟩,
  ⟨⟨"icbi", .system, flInA0b ||| flEndblock ||| flLoadstore⟩, 982⟩,
  ⟨⟨"eciwx", .system, flInA0b ||| flOutD ||| flLoadstore⟩, 310⟩,
  ⟨⟨"ecowx", .system, flInA0b ||| flInS ||| flLoadstore⟩, 438⟩,
  ⟨⟨"eieio", .system, 0⟩, 854⟩,
  ⟨⟨"tlbie", .system, flInB ||| flProgramexception⟩, 306⟩,
  ⟨⟨"tlbsync", .system, flProgramexception⟩, 566⟩]

def table59 : List GekkoOPTemplate := [
  ⟨⟨"fdivsx", .singleFP,
     flOutFloatD ||| flInFloatAb ||| flRcBitF ||| flUseFpu ||| flSetFprf ||| flFloatException |||
     flFloatDiv⟩, 18⟩,
  ⟨⟨"fsubsx", .singleFP,
     flOutFloatD ||| flInFloatAb ||| flRcBitF ||| flUseFpu ||| flSetFprf |||
     flFloatException⟩, 20⟩,
  ⟨⟨"faddsx", .singleFP,
     flOutFloatD ||| flInFloatAb ||| flRcBitF ||| flUseFpu ||| flSetFprf |||
     flFloatException⟩, 21⟩,
  ⟨⟨"fresx", .singleFP,
     flOutFloatD ||| flInFloatB ||| flRcBitF ||| flUseFpu ||| flSetFprf ||| flFloatException |||
     flFloatDiv⟩, 24⟩,
  ⟨⟨"fmulsx", .singleFP,
     flOutFloatD ||| flInFloatAc ||| flRcBitF ||| flUseFpu ||| flSetFprf |||
     flFloatException⟩, 25⟩,
  ⟨⟨"fmsubsx", .singleFP,
     flOutFloatD ||| flInFloatAbc ||| flRcBitF ||| flUseFpu ||| flSetFprf |||
     flFloatException⟩, 28⟩,
  ⟨⟨"fmaddsx", .singleFP,
     flOutFloatD ||| flInFloatAbc ||| flRcBitF ||| flUseFpu ||| flSetFprf |||
     flFloatException⟩, 29⟩,
  ⟨⟨"fnmsubsx", .singleFP,
     flOutFloatD ||| flInFloatAbc ||| flRcBitF ||| flUseFpu ||| flSetFprf |||
     flFloatException⟩, 30⟩,
  ⟨⟨"fnmaddsx", .singleFP,
     flOutFloatD ||| flInFloatAbc ||| flRcBitF ||| flUseFpu ||| flSetFprf |||
     flFloatException⟩, 31⟩]

def table63 : List GekkoOPTemplate := [
  ⟨⟨"fabsx", .doubleFP,
     flInoutFloatD ||| flInFloatB ||| flInFloatBBitexact ||| flRcBitF ||| flUseFpu⟩, 264⟩,
  ⟨⟨"fcmpo", .doubleFP,
     flInFloatAb ||| flSetCrn ||| flUseFpu ||| flReadFprf ||| flSetFprf ||| flFloatException⟩, 32⟩,
  ⟨⟨"fcmpu", .doubleFP,
     flInFloatAb ||| flSetCrn ||| flUseFpu ||| flReadFprf ||| flSetFprf ||| flFloatException⟩, 0⟩,
  ⟨⟨"fctiwx", .doubleFP,
     flInoutFloatD ||| flInFloatB ||| flRcBitF ||| flUseFpu ||| flFloatException⟩, 14⟩,
  ⟨⟨"fctiwzx", .doubleFP,
     flInoutFloatD ||| flInFloatB ||| flRcBitF ||| flUseFpu ||| flFloatException⟩, 15⟩,
  ⟨⟨"fmrx", .doubleFP,
     flInoutFloatD ||| flInFloatB ||| flInFloatBBitexact ||| flRcBitF ||| flUseFpu⟩, 72⟩,
  ⟨⟨"fnabsx", .doubleFP,
     flInoutFloatD ||| flInFloatB ||| flRcBitF ||| flInFloatBBitexact ||| flUseFpu⟩, 136⟩,
  ⟨⟨"fnegx", .doubleFP,
     flInoutFloatD ||| flInFloatB ||| flRcBitF ||| flInFloatBBitexact ||| flUseFpu⟩, 40⟩,
  ⟨⟨"frspx", .doubleFP,
     flOutFloatD ||| flInFloatB ||| flRcBitF ||| flUseFpu ||| flSetFprf ||| flFloatException⟩, 12⟩,
  ⟨⟨"mcrfs", .systemFP, flSetCrn ||| flUseFpu ||| flReadFprf⟩, 64⟩,
  ⟨⟨"mffsx", .systemFP, flRcBitF ||| flInoutFloatD ||| flUseFpu ||| flReadFprf⟩, 583⟩,
  ⟨⟨"mtfsb0x", .systemFP, flRcBitF ||| flUseFpu ||| flReadFprf ||| flSetFprf⟩, 70⟩,
  ⟨⟨"mtfsb1x", .systemFP,
     flRcBitF ||| flUseFpu ||| flReadFprf ||| flSetFprf ||| flFloatException⟩, 38⟩,
  ⟨⟨"mtfsfix", .systemFP,
     flRcBitF ||| flUseFpu ||| flReadFprf ||| flSetFprf ||| flFloatException⟩, 134⟩,
  ⟨⟨"mtfsfx", .systemFP,
     flRcBitF ||| flInFloatB ||| flUseFpu ||| flReadFprf ||| flSetFprf ||| flFloatException⟩, 711⟩]

/-- `s_table63_2`: by the lowest five bits of SUBOP10. -/
def table63Sub5 : List GekkoOPTemplate := [
  ⟨⟨"fdivx", .doubleFP,
     flInoutFloatD ||| flInFloatAb ||| flRcBitF ||| flUseFpu ||| flSetFprf ||| flFloatException |||
     flFloatDiv⟩, 18⟩,
  ⟨⟨"fsubx", .doubleFP,
     flInoutFloatD ||| flInFloatAb ||| flRcBitF ||| flUseFpu ||| flSetFprf |||
     flFloatException⟩, 20⟩,
  ⟨⟨"faddx", .doubleFP,
     flInoutFloatD ||| flInFloatAb ||| flRcBitF ||| flUseFpu ||| flSetFprf |||
     flFloatException⟩, 21⟩,
  ⟨⟨"fselx", .doubleFP,
     flInoutFloatD ||| flInFloatAbc ||| flInFloatBcBitexact ||| flRcBitF ||| flUseFpu⟩, 23⟩,
  ⟨⟨"fmulx", .doubleFP,
     flInoutFloatD ||| flInFloatAc ||| flRcBitF ||| flUseFpu ||| flSetFprf |||
     flFloatException⟩, 25⟩,
  ⟨⟨"frsqrtex", .doubleFP,
     flInoutFloatD ||| flInFloatB ||| flRcBitF ||| flUseFpu ||| flSetFprf ||| flFloatException |||
     flFloatDiv⟩, 26⟩,
  ⟨⟨"fmsubx", .doubleFP,
     flInoutFloatD ||| flInFloatAbc ||| flRcBitF ||| flUseFpu ||| flSetFprf |||
     flFloatException⟩, 28⟩,
  ⟨⟨"fmaddx", .doubleFP,
     flInoutFloatD ||| flInFloatAbc ||| flRcBitF ||| flUseFpu ||| flSetFprf |||
     flFloatException⟩, 29⟩,
  ⟨⟨"fnmsubx", .doubleFP,
     flInoutFloatD ||| flInFloatAbc ||| flRcBitF ||| flUseFpu ||| flSetFprf |||
     flFloatException⟩, 30⟩,
  ⟨⟨"fnmaddx", .doubleFP,
     flInoutFloatD ||| flInFloatAbc ||| flRcBitF ||| flUseFpu ||| flSetFprf |||
     flFloatException⟩, 31⟩]

/-! Looking up. -/

def lookup (table : List GekkoOPTemplate) (opcode : Nat) : Option GekkoOPInfo :=
  (table.find? fun template => template.opcode == opcode).map (·.toGekkoOPInfo)

/-- The tables that fill several places with one entry come first; no two fill one place. -/
def getOpInfo (inst : UGeckoInstruction) : GekkoOPInfo :=
  let info := (lookup primaryTable inst.opcd).getD unknownOpInfo
  if info.type = .subtable then
    let info := match inst.opcd with
      | 4 =>
        ((lookup table4Sub5 (inst.subop10 % 32)).or
          (lookup table4Sub6 (inst.subop10 % 64))).or (lookup table4 inst.subop10)
      | 19 => lookup table19 inst.subop10
      | 31 => lookup table31 inst.subop10
      | 59 => lookup table59 inst.subop5
      | 63 => (lookup table63 inst.subop10).or (lookup table63Sub5 (inst.subop10 % 32))
      | _ => none
    info.getD unknownOpInfo
  else
    info

def allInstructions : List GekkoOPInfo :=
  unknownOpInfo :: (primaryTable ++ table4Sub5 ++ table4Sub6 ++ table4 ++ table31 ++ table19 ++
    table59 ++ table63 ++ table63Sub5).map (·.toGekkoOPInfo)

theorem mem_of_lookup {table : List GekkoOPTemplate} {opcode : Nat} {info : GekkoOPInfo}
    (h : lookup table opcode = some info)
    (htable : ∀ template ∈ table, template.toGekkoOPInfo ∈ allInstructions) :
    info ∈ allInstructions := by
  obtain ⟨template, hfind, rfl⟩ := Option.map_eq_some_iff.1 h
  exact htable template (List.mem_of_find?_eq_some hfind)

theorem mem_allInstructions (tables : List (List GekkoOPTemplate)) (h : tables.flatten =
    primaryTable ++ table4Sub5 ++ table4Sub6 ++ table4 ++ table31 ++ table19 ++ table59 ++ table63 ++
      table63Sub5) : ∀ table ∈ tables, ∀ template ∈ table,
        template.toGekkoOPInfo ∈ allInstructions := by
  intro table htable template htemplate
  refine List.mem_cons_of_mem _ (List.mem_map_of_mem ?_)
  rw [← h]
  exact List.mem_flatten_of_mem htable htemplate

theorem getOpInfo_mem (inst : UGeckoInstruction) : getOpInfo inst ∈ allInstructions := by
  have htables := mem_allInstructions [primaryTable, table4Sub5, table4Sub6, table4, table31,
    table19, table59, table63, table63Sub5] (by simp)
  have hlookup : ∀ table ∈ [primaryTable, table4Sub5, table4Sub6, table4, table31, table19, table59,
      table63, table63Sub5], ∀ opcode, ∀ info ∈ lookup table opcode, info ∈ allInstructions :=
    fun table htable opcode info h => mem_of_lookup h (htables table htable)
  have hor : ∀ x y : Option GekkoOPInfo, (∀ info ∈ x, info ∈ allInstructions) →
      (∀ info ∈ y, info ∈ allInstructions) → ∀ info ∈ x.or y, info ∈ allInstructions := by
    intro x y hx hy info h
    cases x with
    | none => exact hy info h
    | some _ => exact hx info h
  have hgetD : ∀ x : Option GekkoOPInfo, (∀ info ∈ x, info ∈ allInstructions) →
      x.getD unknownOpInfo ∈ allInstructions := by
    intro x hx
    cases x with
    | none => exact List.mem_cons_self ..
    | some info => exact hx info rfl
  unfold getOpInfo
  dsimp only
  split
  · refine hgetD _ ?_
    split
    · exact hor _ _ (hor _ _ (hlookup _ (by simp) _) (hlookup _ (by simp) _)) (hlookup _ (by simp) _)
    · exact hlookup _ (by simp) _
    · exact hlookup _ (by simp) _
    · exact hlookup _ (by simp) _
    · exact hor _ _ (hlookup _ (by simp) _) (hlookup _ (by simp) _)
    · exact nofun
  · exact hgetD _ (hlookup _ (by simp) _)

end PPCTables
end DolphinXR.PowerPC
