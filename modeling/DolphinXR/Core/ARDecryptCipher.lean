import DolphinXR.Core.ARDecrypt

/- The cipher of encrypted Action Replay codes: with as many seeds as the program has, every lookup
   is inside of its table, and two words are made of no other two. Each half round adds to one word
   what is made of the other, so nothing depends on the entries of the tables. -/
namespace DolphinXR.ActionReplay
open Lib
open DiscIO.Lfg (swap32 swap32_swap32)

/-! ### Lookups -/

theorem getElem?_isSome {α : Type} {l : List α} {i : Nat} (h : i < l.length) :
    ∃ a, l[i]? = some a := ⟨_, List.getElem?_eq_getElem h⟩

theorem sixBits_inside (table : List Word) (h : table.length = 64) (tmp : Word) (shift : Nat) :
    ∃ entry, sixBits table tmp shift = some entry := by
  refine getElem?_isSome ?_
  have hle : ((tmp >>> shift) &&& 0x3F).toNat ≤ 0x3F := by
    rw [BitVec.toNat_and]
    exact Nat.and_le_right
  omega

theorem mixed_inside (tmp tmp2 : Word) : ∃ word, mixed tmp tmp2 = some word := by
  obtain ⟨t6, h6⟩ := sixBits_inside table6 rfl tmp 0
  obtain ⟨t4, h4⟩ := sixBits_inside table4 rfl tmp 8
  obtain ⟨t2, h2⟩ := sixBits_inside table2 rfl tmp 16
  obtain ⟨t0, h0⟩ := sixBits_inside table0 rfl tmp 24
  obtain ⟨t7, h7⟩ := sixBits_inside table7 rfl tmp2 0
  obtain ⟨t5, h5⟩ := sixBits_inside table5 rfl tmp2 8
  obtain ⟨t3, h3⟩ := sixBits_inside table3 rfl tmp2 16
  obtain ⟨t1, h1⟩ := sixBits_inside table1 rfl tmp2 24
  unfold mixed
  rw [h6, h4, h2, h0, h7, h5, h3, h1]
  exact ⟨_, rfl⟩

theorem halfRound_inside (seeds : List Word) (i : Nat) (h : i + 1 < seeds.length) (word : Word) :
    ∃ tmp, halfRound seeds i word = some tmp := by
  obtain ⟨seed, hseed⟩ := getElem?_isSome (l := seeds) (i := i) (by omega)
  obtain ⟨seed2, hseed2⟩ := getElem?_isSome h
  unfold halfRound
  rw [hseed, hseed2]
  exact mixed_inside _ _

theorem decryptRounds_inside {seeds : List Word} (rounds i : Nat)
    (h : i + 4 * rounds ≤ seeds.length) (addr val : Word) :
    ∃ code, decryptRounds seeds rounds i addr val = some code := by
  induction rounds generalizing i addr val with
  | zero => exact ⟨_, rfl⟩
  | succ rounds ih =>
    obtain ⟨tmp, htmp⟩ := halfRound_inside seeds i (by omega) val
    obtain ⟨tmp', htmp'⟩ := halfRound_inside seeds (i + 2) (by omega) (addr ^^^ tmp)
    unfold decryptRounds
    rw [htmp]
    dsimp only [Option.bind_eq_bind, Option.bind_some, bind]
    rw [htmp']
    exact ih _ (by omega) _ _

theorem decryptCode_inside (seeds : List Word) (h : 32 ≤ seeds.length) (code : Word × Word) :
    ∃ code', decryptCode seeds code = some code' := by
  obtain ⟨code', hcode'⟩ := decryptRounds_inside 8 0 (by omega)
    (unscramble1 (swap32 code.1) (swap32 code.2)).1 (unscramble1 (swap32 code.1) (swap32 code.2)).2
  unfold decryptCode
  dsimp only
  rw [hcode']
  exact ⟨_, rfl⟩

/-! ### Nothing is lost -/

theorem swap32_injective : Function.Injective swap32 :=
  Function.LeftInverse.injective swap32_swap32

def exchangeTurned (mask : Word) (turn1 turn2 : Word → Word) (x : Word × Word) : Word × Word :=
  (turn1 (x.1 ^^^ ((x.1 ^^^ x.2) &&& mask)), turn2 (x.2 ^^^ ((x.1 ^^^ x.2) &&& mask)))

theorem exchangeTurned_injective (mask : Word) {turn1 turn2 : Word → Word}
    (h1 : Function.Injective turn1) (h2 : Function.Injective turn2) :
    Function.Injective (exchangeTurned mask turn1 turn2) := by
  intro x y h
  obtain ⟨hfirst, hsecond⟩ := Prod.mk.inj h
  exact exchangeBits_injective mask (Prod.ext (h1 hfirst) (h2 hsecond))

theorem unscramble1_eq (addr val : Word) :
    unscramble1 addr val =
      exchangeTurned 0xAAAAAAAA (·.rotateLeft 1) id
        (exchangeTurned 0x00FF00FF id (·.rotateLeft 9)
          (exchangeTurned 0x33333333 id (·.rotateRight 6)
            (exchangeTurned 0xFFFF0000 id (·.rotateRight 0x12)
              (exchangeTurned 0xF0F0F0F0 id (·.rotateRight 0x14) (addr, val.rotateLeft 4))))) := by
  unfold unscramble1
  simp only [exchangeTurned, id]

theorem unscramble2_eq (addr val : Word) :
    unscramble2 addr val =
      exchangeTurned 0xF0F0F0F0 (·.rotateRight 4) id
        (exchangeTurned 0xFFFF0000 (·.rotateLeft 0x14) id
          (exchangeTurned 0x33333333 (·.rotateLeft 0x12) id
            (exchangeTurned 0x00FF00FF (·.rotateLeft 6) id
              (exchangeTurned 0xAAAAAAAA (·.rotateRight 9) id (addr, val.rotateRight 1))))) := by
  unfold unscramble2
  simp only [exchangeTurned, id]

theorem unscramble1_injective :
    Function.Injective fun x : Word × Word => unscramble1 x.1 x.2 := by
  intro x y h
  dsimp only at h
  rw [unscramble1_eq, unscramble1_eq] at h
  have h1 := exchangeTurned_injective _ (rotateLeft_injective 1) Function.injective_id h
  have h2 := exchangeTurned_injective _ Function.injective_id (rotateLeft_injective 9) h1
  have h3 := exchangeTurned_injective _ Function.injective_id (rotateRight_injective 6) h2
  have h4 := exchangeTurned_injective _ Function.injective_id (rotateRight_injective 0x12) h3
  have h5 := exchangeTurned_injective _ Function.injective_id (rotateRight_injective 0x14) h4
  obtain ⟨h6, h7⟩ := Prod.mk.inj h5
  exact Prod.ext h6 (rotateLeft_injective 4 h7)

theorem unscramble2_injective :
    Function.Injective fun x : Word × Word => unscramble2 x.1 x.2 := by
  intro x y h
  dsimp only at h
  rw [unscramble2_eq, unscramble2_eq] at h
  have h1 := exchangeTurned_injective _ (rotateRight_injective 4) Function.injective_id h
  have h2 := exchangeTurned_injective _ (rotateLeft_injective 0x14) Function.injective_id h1
  have h3 := exchangeTurned_injective _ (rotateLeft_injective 0x12) Function.injective_id h2
  have h4 := exchangeTurned_injective _ (rotateLeft_injective 6) Function.injective_id h3
  have h5 := exchangeTurned_injective _ (rotateRight_injective 9) Function.injective_id h4
  obtain ⟨h6, h7⟩ := Prod.mk.inj h5
  exact Prod.ext h6 (rotateRight_injective 1 h7)

theorem decryptRounds_injective {seeds : List Word} {rounds i : Nat}
    {addr val addr' val' : Word} {code : Word × Word}
    (h : decryptRounds seeds rounds i addr val = some code)
    (h' : decryptRounds seeds rounds i addr' val' = some code) : addr = addr' ∧ val = val' := by
  induction rounds generalizing i addr val addr' val' with
  | zero => exact Prod.mk.inj (Option.some.inj (h.trans h'.symm))
  | succ rounds ih =>
    unfold decryptRounds at h h'
    obtain ⟨tmp, htmp, h⟩ := Option.bind_eq_some_iff.1 h
    obtain ⟨tmp', htmp', h'⟩ := Option.bind_eq_some_iff.1 h'
    obtain ⟨tmp2, htmp2, h⟩ := Option.bind_eq_some_iff.1 h
    obtain ⟨tmp2', htmp2', h'⟩ := Option.bind_eq_some_iff.1 h'
    obtain ⟨haddr, hval⟩ := ih h h'
    -- The second half round saw the same word, then so did the first.
    rw [haddr] at htmp2
    obtain rfl : tmp2 = tmp2' := Option.some.inj (htmp2.symm.trans htmp2')
    obtain rfl := xor_right_injective _ hval
    obtain rfl : tmp = tmp' := Option.some.inj (htmp.symm.trans htmp')
    exact ⟨xor_right_injective _ haddr, rfl⟩

theorem decryptCode_injective {seeds : List Word} {code code' result : Word × Word}
    (h : decryptCode seeds code = some result) (h' : decryptCode seeds code' = some result) :
    code = code' := by
  unfold decryptCode at h h'
  dsimp only at h h'
  obtain ⟨rounds, hrounds, h⟩ := Option.bind_eq_some_iff.1 h
  obtain ⟨rounds', hrounds', h'⟩ := Option.bind_eq_some_iff.1 h'
  obtain ⟨hval, haddr⟩ := Prod.mk.inj (Option.some.inj (h.trans h'.symm))
  obtain rfl : rounds = rounds' := unscramble2_injective
    (Prod.ext (swap32_injective haddr) (swap32_injective hval))
  obtain ⟨h1, h2⟩ := decryptRounds_injective hrounds hrounds'
  obtain ⟨h3, h4⟩ := Prod.mk.inj (@unscramble1_injective (swap32 code.1, swap32 code.2)
    (swap32 code'.1, swap32 code'.2) (Prod.ext h1 h2))
  exact Prod.ext (swap32_injective h3) (swap32_injective h4)

/-! ### Blocks -/

theorem mapM_inside {α β : Type} {f : α → Option β} {P : β → Prop} (l : List α)
    (h : ∀ a ∈ l, ∃ b, f a = some b ∧ P b) :
    ∃ bs, l.mapM f = some bs ∧ bs.length = l.length ∧ ∀ b ∈ bs, P b := by
  induction l with
  | nil => exact ⟨[], rfl, rfl, fun b hb => absurd hb List.not_mem_nil⟩
  | cons a l ih =>
    obtain ⟨b, hb, hP⟩ := h a List.mem_cons_self
    obtain ⟨bs, hbs, hlength, hall⟩ := ih fun a' ha' => h a' (List.mem_cons_of_mem a ha')
    refine ⟨b :: bs, ?_, by rw [List.length_cons, hlength, List.length_cons],
      List.forall_mem_cons.2 ⟨hP, hall⟩⟩
    rw [List.mapM_cons, hb, hbs]
    rfl

theorem foldlM_keeps {α β : Type} {f : α → β → Option α} {P : α → Prop} (l : List β)
    (h : ∀ a, P a → ∀ b ∈ l, ∃ a', f a b = some a' ∧ P a') (a : α) (ha : P a) :
    ∃ a', l.foldlM f a = some a' ∧ P a' := by
  induction l generalizing a with
  | nil => exact ⟨a, rfl, ha⟩
  | cons b l ih =>
    obtain ⟨a', hstep, ha'⟩ := h a ha b List.mem_cons_self
    rw [List.foldlM_cons, hstep]
    exact ih (fun a ha b hb => h a ha b (List.mem_cons_of_mem _ hb)) a' ha'

theorem genArray0_inside : ∃ array0, genArray0 = some array0 ∧ array0.length = 0x38 := by
  unfold genArray0
  have hentry : ∀ g ∈ gentable0, ∃ bit, (do
      let tmp := g - 1
      let sub ← gensubtable[tmp >>> 3]?
      let bit ← gentable1[tmp &&& 7]?
      return ((0 - BitVec.ofNat 32 (sub &&& bit)) >>> 31).toNat : Option Nat) = some bit ∧
      True := by
    intro g hg
    obtain ⟨hsub, hbit⟩ := (by decide : ∀ g ∈ gentable0,
      (g - 1) >>> 3 < gensubtable.length ∧ (g - 1) &&& 7 < gentable1.length) g hg
    obtain ⟨sub, hsub⟩ := getElem?_isSome hsub
    obtain ⟨bit, hbit⟩ := getElem?_isSome hbit
    dsimp only
    rw [hsub, Option.bind_eq_bind, Option.bind_some, hbit]
    exact ⟨_, rfl, trivial⟩
  obtain ⟨array0, h, hlength, -⟩ := mapM_inside gentable0 hentry
  exact ⟨array0, h, hlength⟩

theorem genArray1_inside {array0 : List Nat} (h : array0.length = 0x38) {tmp2 : Nat}
    (htmp2 : tmp2 ≤ 0x1C) : ∃ array1, genArray1 array0 tmp2 = some array1 ∧
      array1.length = 0x38 := by
  unfold genArray1
  have hentry : ∀ j ∈ List.range 0x38, ∃ bit, (
      let tmp := (tmp2 + j) % 256
      let tmp :=
        if 0x1B < j then if 0x37 < tmp then tmp - 0x1C else tmp
        else if 0x1B < tmp then tmp - 0x1C else tmp
      array0[tmp]?) = some bit ∧ True := by
    intro j hj
    have hrange := List.mem_range.1 hj
    obtain ⟨bit, hbit⟩ := getElem?_isSome (l := array0)
      (i := if 0x1B < j then if 0x37 < (tmp2 + j) % 256 then (tmp2 + j) % 256 - 0x1C
          else (tmp2 + j) % 256
        else if 0x1B < (tmp2 + j) % 256 then (tmp2 + j) % 256 - 0x1C else (tmp2 + j) % 256)
      (by split_ifs <;> omega)
    exact ⟨bit, hbit, trivial⟩
  obtain ⟨array1, harray1, hlength, -⟩ := mapM_inside (List.range 0x38) hentry
  exact ⟨array1, harray1, hlength⟩

theorem genArray2_inside {array1 : List Nat} (h : array1.length = 0x38) :
    ∃ array2, genArray2 array1 = some array2 ∧ array2.length = 8 := by
  refine foldlM_keeps (P := fun array2 : List Nat => array2.length = 8) _ ?_ _
    List.length_replicate
  intro array2 hlength j hj
  obtain ⟨hk, hk', htmp, hnew⟩ := (by decide : ∀ j ∈ List.range 0x30,
    j < gentable3.length ∧ gentable3.getD j 0 - 1 < 0x38 ∧
      ((j * 0x2AAB) >>> 16 - j >>> 0x1F) % 256 < 8 ∧
      j - ((j * 0x2AAB) >>> 16 - j >>> 0x1F) % 256 * 6 < gentable1.length) j hj
  obtain ⟨k, hk⟩ := getElem?_isSome hk
  rw [List.getD_eq_getElem?_getD, hk, Option.getD_some, ← h] at hk'
  obtain ⟨bit, hbit⟩ := getElem?_isSome hk'
  obtain ⟨old, hold⟩ := getElem?_isSome (htmp.trans_eq hlength.symm)
  obtain ⟨new, hnew⟩ := getElem?_isSome hnew
  rw [hk, Option.bind_eq_bind, Option.bind_some, hbit, Option.bind_some]
  split
  · exact ⟨array2, rfl, hlength⟩
  · dsimp only
    rw [hold, Option.bind_some, hnew]
    exact ⟨_, rfl, List.length_set.trans hlength⟩

theorem seedPair_inside {array2 : List Nat} (h : array2.length = 8) :
    ∃ pair, seedPair array2 = some pair ∧ pair.length = 2 := by
  match array2, h with
  | [_, _, _, _, _, _, _, _], _ => exact ⟨_, rfl, rfl⟩

theorem swapSeeds_inside {seeds : List Word} {i j : Nat} (hi : i < seeds.length)
    (hj : j < seeds.length) :
    ∃ seeds', swapSeeds seeds i j = some seeds' ∧ seeds'.length = seeds.length := by
  obtain ⟨a, ha⟩ := getElem?_isSome hi
  obtain ⟨b, hb⟩ := getElem?_isSome hj
  unfold swapSeeds
  rw [ha, hb]
  exact ⟨_, rfl, by rw [List.length_set, List.length_set]⟩

theorem flatten_pairs_length (pairs : List (List Word)) (h : ∀ pair ∈ pairs, pair.length = 2) :
    pairs.flatten.length = 2 * pairs.length := by
  induction pairs with
  | nil => rfl
  | cons pair pairs ih =>
    obtain ⟨hpair, hpairs⟩ := List.forall_mem_cons.1 h
    rw [List.flatten_cons, List.length_append, hpair, ih hpairs, List.length_cons]
    omega

theorem makeSeeds_inside : ∃ seeds, makeSeeds = some seeds ∧ seeds.length = 0x30 := by
  obtain ⟨array0, harray0, h0⟩ := genArray0_inside
  obtain ⟨pairs, hpairs, hlength, hall⟩ := mapM_inside (P := fun pair => pair.length = 2)
    (f := fun tmp2 => do
      let array1 ← genArray1 array0 tmp2
      let array2 ← genArray2 array1
      seedPair array2) gentable2 fun tmp2 htmp2 => by
    obtain ⟨array1, harray1, h1⟩ := genArray1_inside h0
      ((by decide : ∀ tmp2 ∈ gentable2, tmp2 ≤ 0x1C) tmp2 htmp2)
    obtain ⟨array2, harray2, h2⟩ := genArray2_inside h1
    obtain ⟨pair, hpair, hlength⟩ := seedPair_inside h2
    refine ⟨pair, ?_, hlength⟩
    rw [harray1, Option.bind_eq_bind, Option.bind_some, harray2, Option.bind_some, hpair]
  have hseeds : (pairs.flatten ++ List.replicate (0x30 - 0x20) (0 : Word)).length = 0x30 := by
    rw [List.length_append, flatten_pairs_length pairs hall, hlength, List.length_replicate]
    rfl
  obtain ⟨seeds, hturned, hfinal⟩ := foldlM_keeps (P := fun seeds => seeds.length = 0x30)
    (f := fun seeds k => do
      let seeds ← swapSeeds seeds (2 * k) (0x1F - 2 * k - 1)
      swapSeeds seeds (2 * k + 1) (0x1F - 2 * k)) (List.range 8) (fun seeds h k hk => by
    have hrange := List.mem_range.1 hk
    obtain ⟨seeds1, h1, hlength1⟩ := @swapSeeds_inside seeds (2 * k) (0x1F - 2 * k - 1)
      (by omega) (by omega)
    obtain ⟨seeds2, h2, hlength2⟩ := @swapSeeds_inside seeds1 (2 * k + 1) (0x1F - 2 * k)
      (by omega) (by omega)
    refine ⟨seeds2, ?_, by rw [hlength2, hlength1, h]⟩
    rw [h1, Option.bind_eq_bind, Option.bind_some, h2]) _ hseeds
  refine ⟨seeds, ?_, hfinal⟩
  unfold makeSeeds
  rw [harray0, Option.bind_eq_bind, Option.bind_some]
  exact (congrArg (Option.bind · _) hpairs).trans hturned

theorem genseeds_length : genseeds.length = 0x30 := by
  obtain ⟨seeds, hseeds, hlength⟩ := makeSeeds_inside
  rw [genseeds, hseeds, Option.getD_some, hlength]

theorem decryptCodes_inside (codes : List Word) :
    ∃ codes', decryptCodes genseeds codes = some codes' ∧ codes'.length = codes.length := by
  fun_induction decryptCodes genseeds codes with
  | case1 a b codes ih =>
    obtain ⟨code, hcode⟩ := decryptCode_inside genseeds
      (by rw [genseeds_length]; decide) (a, b)
    obtain ⟨codes', hcodes', hlength⟩ := ih
    rw [hcode, hcodes']
    exact ⟨_, rfl, by simp only [List.length_cons, hlength]⟩
  | case2 codes => exact ⟨codes, rfl, rfl⟩

theorem foldlM_inside {α β : Type} {f : α → β → Option α} (h : ∀ a b, ∃ a', f a b = some a')
    (l : List β) (a : α) : ∃ a', l.foldlM f a = some a' := by
  induction l generalizing a with
  | nil => exact ⟨a, rfl⟩
  | cons b l ih =>
    obtain ⟨a', ha'⟩ := h a b
    rw [List.foldlM_cons, ha']
    exact ih a'

theorem getCRC16Step_inside (ret : BitVec 16) (code : Word) (i : Nat) :
    ∃ ret', getCRC16Step ret code i = some ret' := by
  have hlow : ∀ x : BitVec 8, (x &&& 0x0F).toNat < 16 := by
    intro x
    have hle : (x &&& 0x0F).toNat ≤ 0x0F := by
      rw [BitVec.toNat_and]
      exact Nat.and_le_right
    omega
  obtain ⟨a, ha⟩ := getElem?_isSome (l := crctable0)
    (hlow ((((code >>> (i <<< 3)) ^^^ ret.zeroExtend 32).truncate 8) >>> 4))
  obtain ⟨b, hb⟩ := getElem?_isSome (l := crctable1)
    (hlow (((code >>> (i <<< 3)) ^^^ ret.zeroExtend 32).truncate 8))
  unfold getCRC16Step
  dsimp only
  rw [ha, hb]
  exact ⟨_, rfl⟩

theorem verifyCode_inside (codes : List Word) : ∃ code, verifyCode codes = some code := by
  obtain ⟨ret, hret⟩ := foldlM_inside
    (fun ret code => foldlM_inside (fun ret i => getCRC16Step_inside ret code i) (List.range 4) ret)
    codes 0
  unfold verifyCode getCRC16
  rw [hret]
  exact ⟨_, rfl⟩

theorem batchDecrypt_inside (codes : List Word) (h : codes ≠ []) :
    ∃ first rest info, decryptCodes genseeds codes = some (first :: rest) ∧
      batchDecrypt codes = some ((first &&& 0x0FFFFFFF) :: rest, info) := by
  obtain ⟨codes', hcodes', hlength⟩ := decryptCodes_inside codes
  obtain ⟨first, rest, rfl⟩ := List.exists_cons_of_ne_nil (l := codes') fun hnil =>
    h (List.length_eq_zero_iff.1 (by rw [← hlength, hnil, List.length_nil]))
  obtain ⟨code, hcode⟩ := verifyCode_inside ((first &&& 0x0FFFFFFF) :: rest)
  unfold batchDecrypt
  rw [hcodes']
  dsimp only [Option.bind_eq_bind, Option.bind_some, bind, List.getElem?_cons_zero,
    List.set_cons_zero]
  rw [hcode, Option.bind_some]
  split
  · exact ⟨first, rest, none, rfl, rfl⟩
  · exact ⟨first, rest, _, rfl, rfl⟩

end DolphinXR.ActionReplay
