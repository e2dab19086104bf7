import Mathlib.Data.List.Infix
import Mathlib.Data.List.Nodup

/- A directory tree as a POSIX file system keeps it: each path is a directory or names a file's
   contents, what is below a path needs a directory there, and the contents stay when the name of
   a file that is open is gone. An operation is `none` where POSIX does not allow it, and then
   nothing is changed. -/
namespace DolphinXR.Lib

inductive Node where
  | file (inode : Nat)
  | dir
  deriving DecidableEq

namespace Node

def isFile : Node → Bool
  | file _ => true
  | dir => false

end Node

structure FileTree (κ β : Type) where
  entries : List (List κ × Node)
  /-- The contents of the files, by inode. -/
  contents : List β
  nodup : (entries.map Prod.fst).Nodup
  closed : ∀ p c, p ++ [c] ∈ entries.map Prod.fst → (p, Node.dir) ∈ entries

namespace FileTree
variable {κ β : Type}

theorem mem_keys {t : FileTree κ β} {p : List κ} {a : Node} (h : (p, a) ∈ t.entries) :
    p ∈ t.entries.map Prod.fst := List.mem_map.2 ⟨_, h, rfl⟩

theorem eq_of_mem {t : FileTree κ β} {p : List κ} {a b : Node} (ha : (p, a) ∈ t.entries)
    (hb : (p, b) ∈ t.entries) : a = b :=
  congrArg Prod.snd (List.inj_on_of_nodup_map t.nodup ha hb rfl)

variable [DecidableEq κ]

def node (t : FileTree κ β) (p : List κ) : Option Node :=
  (t.entries.find? fun x => x.1 = p).map Prod.snd

/-- The names in a directory. -/
def children (t : FileTree κ β) (p : List κ) : List (κ × Node) :=
  t.entries.filterMap fun x =>
    match x.1.reverse with
    | [] => none
    | c :: r => if r.reverse = p then some (c, x.2) else none

/-- The contents of the file at a path. -/
def read (t : FileTree κ β) (p : List κ) : Option β :=
  match t.node p with
  | some (.file inode) => t.contents[inode]?
  | _ => none

theorem node_eq_some {t : FileTree κ β} {p : List κ} {a : Node} :
    t.node p = some a ↔ (p, a) ∈ t.entries := by
  have hkey : ∀ x, (t.entries.find? fun x => x.1 = p) = some x → x.1 = p ∧ x ∈ t.entries :=
    fun x h => ⟨by simpa using List.find?_some h, List.mem_of_find?_eq_some h⟩
  unfold node
  constructor
  · intro h
    obtain ⟨⟨q, b⟩, hfind, rfl⟩ := Option.map_eq_some_iff.1 h
    obtain ⟨rfl, hmem⟩ := hkey _ hfind
    exact hmem
  · intro h
    cases hfind : t.entries.find? fun x => x.1 = p with
    | none => simpa using List.find?_eq_none.1 hfind _ h
    | some x =>
      obtain ⟨q, b⟩ := x
      obtain ⟨rfl, hmem⟩ := hkey _ hfind
      exact congrArg some (eq_of_mem hmem h)

theorem node_eq_none {t : FileTree κ β} {p : List κ} :
    t.node p = none ↔ p ∉ t.entries.map Prod.fst := by
  constructor
  · intro h hp
    obtain ⟨⟨q, a⟩, hmem, rfl⟩ := List.mem_map.1 hp
    exact absurd (h.symm.trans (node_eq_some.2 hmem)) nofun
  · intro hp
    cases h : t.node p with
    | none => rfl
    | some a => exact absurd (mem_keys (node_eq_some.1 h)) hp

theorem node_dropLast {t : FileTree κ β} {p : List κ} {a : Node} (h : t.node p = some a)
    (hne : p ≠ []) : t.node p.dropLast = some .dir := by
  have hp := mem_keys (node_eq_some.1 h)
  rw [← List.dropLast_concat_getLast hne] at hp
  exact node_eq_some.2 (t.closed _ _ hp)

theorem node_of_append {t : FileTree κ β} {p r : List κ} {a : Node} (h : t.node (p ++ r) = some a)
    (hne : r ≠ []) : t.node p = some .dir := by
  induction r using List.reverseRecOn generalizing a with
  | nil => exact absurd rfl hne
  | append_singleton r c ih =>
    have hr : t.node (p ++ r) = some .dir := by
      rw [← List.append_assoc] at h
      exact node_eq_some.2 (t.closed _ _ (mem_keys (node_eq_some.1 h)))
    rcases eq_or_ne r [] with rfl | hr'
    · rwa [List.append_nil] at hr
    · exact ih hr hr'

theorem node_below_file {t : FileTree κ β} {p r : List κ} {inode : Nat}
    (h : t.node p = some (.file inode)) (hne : r ≠ []) : t.node (p ++ r) = none := by
  cases hr : t.node (p ++ r) with
  | none => rfl
  | some a => exact absurd (h.symm.trans (node_of_append hr hne)) nofun

/-! ### New names -/

/-- The directory a name is made in is there; the root's own is outside the tree. -/
def Places (t : FileTree κ β) (p : List κ) : Prop :=
  t.node p = none ∧ (p = [] ∨ t.node p.dropLast = some .dir)

instance (t : FileTree κ β) (p : List κ) : Decidable (t.Places p) :=
  inferInstanceAs (Decidable (_ ∧ _))

theorem closed_insert {t : FileTree κ β} {p : List κ} (h : t.Places p) (a : Node) :
    ∀ q c, q ++ [c] ∈ (t.entries ++ [(p, a)]).map Prod.fst →
      (q, Node.dir) ∈ t.entries ++ [(p, a)] := by
  intro q c hq
  refine List.mem_append_left _ ?_
  rw [List.map_append, List.mem_append] at hq
  rcases hq with hq | hq
  · exact t.closed _ _ hq
  · have heq : q ++ [c] = p := List.mem_singleton.1 hq
    rcases h.2 with rfl | hparent
    · exact absurd heq (List.append_ne_nil_of_right_ne_nil _ nofun)
    · rw [← heq, List.dropLast_concat] at hparent
      exact node_eq_some.1 hparent

theorem nodup_insert {t : FileTree κ β} {p : List κ} (h : t.Places p) (a : Node) :
    ((t.entries ++ [(p, a)]).map Prod.fst).Nodup := by
  rw [List.map_append, List.map_singleton, ← List.concat_eq_append]
  exact t.nodup.concat (node_eq_none.1 h.1)

def mkdir (t : FileTree κ β) (p : List κ) : Option (FileTree κ β) :=
  if h : t.Places p then
    some { t with
      entries := t.entries ++ [(p, .dir)]
      nodup := nodup_insert h _
      closed := closed_insert h _ }
  else none

/-- A file of its own, or the one that is there with other contents (`open` with `O_CREAT` and
    `O_TRUNC`). -/
def create (t : FileTree κ β) (p : List κ) (content : β) : Option (FileTree κ β) :=
  match t.node p with
  | some (.file inode) => some { t with contents := t.contents.set inode content }
  | some .dir => none
  | none =>
    if h : t.Places p then
      some { t with
        entries := t.entries ++ [(p, .file t.contents.length)]
        contents := t.contents ++ [content]
        nodup := nodup_insert h _
        closed := closed_insert h _ }
    else none

def write (t : FileTree κ β) (inode : Nat) (content : β) : FileTree κ β :=
  { t with contents := t.contents.set inode content }

theorem node_insert {t t' : FileTree κ β} {p q : List κ} {a b : Node}
    (hentries : t'.entries = t.entries ++ [(p, b)]) (h : t.node q = some a) :
    t'.node q = some a := by
  rw [node_eq_some] at h ⊢
  rw [hentries]
  exact List.mem_append_left _ h

theorem node_mkdir {t t' : FileTree κ β} {p q : List κ} {a : Node} (h : t.mkdir p = some t')
    (hq : t.node q = some a) : t'.node q = some a := by
  unfold mkdir at h
  split at h
  · obtain rfl := Option.some.inj h
    exact node_insert rfl hq
  · cases h

theorem node_create {t t' : FileTree κ β} {p q : List κ} {content : β} {a : Node}
    (h : t.create p content = some t') (hq : t.node q = some a) : t'.node q = some a := by
  unfold create at h
  split at h
  · obtain rfl := Option.some.inj h
    exact hq
  · cases h
  · split at h
    · obtain rfl := Option.some.inj h
      exact node_insert rfl hq
    · cases h

theorem node_create_self {t t' : FileTree κ β} {p : List κ} {content : β}
    (h : t.create p content = some t') : ∃ inode, t'.node p = some (.file inode) := by
  unfold create at h
  split at h
  · next inode hnode =>
    obtain rfl := Option.some.inj h
    exact ⟨inode, hnode⟩
  · cases h
  · split at h
    · obtain rfl := Option.some.inj h
      exact ⟨_, node_eq_some.2 (List.mem_append_right _ (List.mem_singleton.2 rfl))⟩
    · cases h

/-- A path and all that is below it. -/
def removeAll (t : FileTree κ β) (p : List κ) : FileTree κ β where
  entries := t.entries.filter fun x => !decide (p <+: x.1)
  contents := t.contents
  nodup := t.nodup.sublist (List.filter_sublist.map _)
  closed := by
    intro q c hq
    obtain ⟨⟨k, a⟩, hmem, rfl⟩ := List.mem_map.1 hq
    obtain ⟨hmem, hnot⟩ := List.mem_filter.1 hmem
    have hout : ¬ p <+: q ++ [c] := by simpa using hnot
    refine List.mem_filter.2 ⟨t.closed q c (mem_keys hmem), ?_⟩
    simpa using fun hp : p <+: q => hout (hp.trans (List.prefix_append ..))

/-- A file's name; what is removed with it is the name alone, as nothing is below a file. -/
def unlink (t : FileTree κ β) (p : List κ) : Option (FileTree κ β) :=
  match t.node p with
  | some (.file _) => some (t.removeAll p)
  | _ => none

theorem node_removeAll (t : FileTree κ β) (p q : List κ) :
    (t.removeAll p).node q = if p <+: q then none else t.node q := by
  split
  case isTrue hp =>
    refine node_eq_none.2 fun hq => ?_
    obtain ⟨⟨k, a⟩, hmem, rfl⟩ := List.mem_map.1 hq
    have hout : ¬ p <+: k := by simpa using (List.mem_filter.1 hmem).2
    exact hout hp
  case isFalse hp =>
    refine Option.ext fun a => ?_
    rw [node_eq_some, node_eq_some]
    constructor
    · exact fun h => (List.mem_filter.1 h).1
    · exact fun h => List.mem_filter.2 ⟨h, by simpa using hp⟩

/-! ### Renaming -/

/-- What `rename` asks for, for two different paths: the source is there and is not moved below
    itself, the directory it is moved to is there, and what it replaces is of its kind and empty. -/
structure Renames (t : FileTree κ β) (p q : List κ) : Prop where
  source : t.node p ≠ none
  parent : q ≠ [] ∧ t.node q.dropLast = some .dir
  apart : ¬ p <+: q
  kind : ∀ b ∈ t.node q, (t.node p).map Node.isFile = some b.isFile
  empty : ∀ x ∈ t.entries, q <+: x.1 → x.1 = q

instance (t : FileTree κ β) (p q : List κ) : Decidable (t.Renames p q) :=
  decidable_of_iff
    (t.node p ≠ none ∧ (q ≠ [] ∧ t.node q.dropLast = some .dir) ∧ ¬ p <+: q ∧
      (∀ b ∈ t.node q, (t.node p).map Node.isFile = some b.isFile) ∧
      ∀ x ∈ t.entries, q <+: x.1 → x.1 = q)
    ⟨fun ⟨h1, h2, h3, h4, h5⟩ => ⟨h1, h2, h3, h4, h5⟩,
      fun ⟨h1, h2, h3, h4, h5⟩ => ⟨h1, h2, h3, h4, h5⟩⟩

/-- The path a path becomes when `p` is renamed to `q`. -/
def moved (p q k : List κ) : List κ := if p <+: k then q ++ k.drop p.length else k

theorem moved_append (p q r : List κ) : moved p q (p ++ r) = q ++ r := by
  rw [moved, if_pos (List.prefix_append ..), List.drop_left]

theorem moved_of_not {p q k : List κ} (h : ¬ p <+: k) : moved p q k = k := if_neg h

def renamed (t : FileTree κ β) (p q : List κ) : List (List κ × Node) :=
  (t.entries.filter fun x => x.1 ≠ q).map fun x => (moved p q x.1, x.2)

theorem mem_renamed {t : FileTree κ β} {p q k : List κ} {a : Node} :
    (k, a) ∈ t.renamed p q ↔ ∃ l, (l, a) ∈ t.entries ∧ l ≠ q ∧ moved p q l = k := by
  simp only [renamed, List.mem_map, List.mem_filter, Prod.exists, Prod.mk.injEq]
  constructor
  · rintro ⟨l, b, ⟨hmem, hne⟩, hk, rfl⟩
    exact ⟨l, hmem, of_decide_eq_true hne, hk⟩
  · rintro ⟨l, hmem, hne, hk⟩
    exact ⟨l, a, ⟨hmem, decide_eq_true hne⟩, hk, rfl⟩

theorem Renames.moved_inj {t : FileTree κ β} {p q k l : List κ} (h : t.Renames p q)
    (hk : k ∈ t.entries.map Prod.fst) (hl : l ∈ t.entries.map Prod.fst) (hkq : k ≠ q)
    (hlq : l ≠ q) (heq : moved p q k = moved p q l) : k = l := by
  -- What is not moved is not below the target, where all that is moved comes to.
  have hnew : ∀ r m, m ∈ t.entries.map Prod.fst → m ≠ q → ¬ q ++ r = m := by
    rintro r m hm hne rfl
    obtain ⟨x, hx, hfst⟩ := List.mem_map.1 hm
    exact hne (hfst ▸ h.empty x hx (hfst ▸ List.prefix_append ..))
  by_cases hpk : p <+: k
  · obtain ⟨r, rfl⟩ := hpk
    rw [moved_append] at heq
    by_cases hpl : p <+: l
    · obtain ⟨r', rfl⟩ := hpl
      rw [moved_append] at heq
      rw [List.append_cancel_left heq]
    · rw [moved_of_not hpl] at heq
      exact absurd heq (hnew r l hl hlq)
  · rw [moved_of_not hpk] at heq
    by_cases hpl : p <+: l
    · obtain ⟨r', rfl⟩ := hpl
      rw [moved_append] at heq
      exact absurd heq.symm (hnew r' k hk hkq)
    · rwa [moved_of_not hpl] at heq

theorem Renames.nodup {t : FileTree κ β} {p q : List κ} (h : t.Renames p q) :
    ((t.renamed p q).map Prod.fst).Nodup := by
  have hmap : (t.renamed p q).map Prod.fst =
      ((t.entries.filter fun x => x.1 ≠ q).map Prod.fst).map (moved p q) := by
    simp [renamed, List.map_map, Function.comp_def]
  have hsub : ((t.entries.filter fun x => x.1 ≠ q).map Prod.fst).Nodup :=
    t.nodup.sublist (List.filter_sublist.map _)
  have hkey : ∀ k ∈ (t.entries.filter fun x => x.1 ≠ q).map Prod.fst,
      k ∈ t.entries.map Prod.fst ∧ k ≠ q := by
    intro k hk
    obtain ⟨x, hx, rfl⟩ := List.mem_map.1 hk
    obtain ⟨hmem, hne⟩ := List.mem_filter.1 hx
    exact ⟨List.mem_map.2 ⟨x, hmem, rfl⟩, of_decide_eq_true hne⟩
  rw [hmap]
  refine hsub.map_on fun k hk l hl heq => ?_
  exact h.moved_inj (hkey k hk).1 (hkey l hl).1 (hkey k hk).2 (hkey l hl).2 heq

theorem Renames.closed {t : FileTree κ β} {p q : List κ} (h : t.Renames p q) :
    ∀ k c, k ++ [c] ∈ (t.renamed p q).map Prod.fst → (k, Node.dir) ∈ t.renamed p q := by
  intro k c hk
  obtain ⟨⟨m, a⟩, hmem, hfst⟩ := List.mem_map.1 hk
  obtain ⟨l, hl, hlq, hmoved⟩ := mem_renamed.1 hmem
  rw [mem_renamed]
  have hkey : moved p q l = k ++ [c] := hmoved.trans hfst
  by_cases hpl : p <+: l
  · obtain ⟨r, rfl⟩ := hpl
    rw [moved_append] at hkey
    obtain rfl | ⟨r, d, rfl⟩ := List.eq_nil_or_concat' r
    · -- The source itself: its new directory stays where it is.
      rw [List.append_nil] at hkey
      have hparent := h.parent.2
      rw [hkey, List.dropLast_concat] at hparent
      refine ⟨k, node_eq_some.1 hparent, ?_, moved_of_not fun hp => h.apart ?_⟩
      · rintro rfl
        exact absurd (congrArg List.length hkey) (by simp)
      · exact hkey ▸ hp.trans (List.prefix_append ..)
    · rw [← List.append_assoc] at hkey
      obtain ⟨rfl, -⟩ := List.append_inj' hkey rfl
      rw [← List.append_assoc] at hl
      refine ⟨p ++ r, t.closed _ _ (mem_keys hl), ?_, moved_append ..⟩
      rintro rfl
      exact h.apart (List.prefix_append ..)
  · rw [moved_of_not hpl] at hkey
    subst hkey
    refine ⟨k, t.closed _ _ (mem_keys hl), ?_, moved_of_not fun hp => hpl ?_⟩
    · rintro rfl
      exact hlq (h.empty _ hl (List.prefix_append ..))
    · exact hp.trans (List.prefix_append ..)

/-- `rename`: nothing is done where both paths are one. -/
def rename (t : FileTree κ β) (p q : List κ) : Option (FileTree κ β) :=
  if p = q then (t.node p).map fun _ => t
  else if h : t.Renames p q then
    some { entries := t.renamed p q, contents := t.contents, nodup := h.nodup, closed := h.closed }
  else none

theorem node_rename {t t' : FileTree κ β} {p q k : List κ} {a : Node} (h : t.rename p q = some t')
    (hk : t.node k = some a) (hsource : ¬ p <+: k) (htarget : k ≠ q) : t'.node k = some a := by
  unfold rename at h
  split at h
  · obtain ⟨-, -, rfl⟩ := Option.map_eq_some_iff.1 h
    exact hk
  · split at h
    · obtain rfl := Option.some.inj h
      rw [node_eq_some] at hk ⊢
      exact mem_renamed.2 ⟨k, hk, htarget, moved_of_not hsource⟩
    · cases h

theorem rename_removeAll {t : FileTree κ β} {p q : List κ} {a b : Node} (ha : t.node p = some a)
    (hb : t.node q = some b) (hne : q ≠ []) :
    (t.removeAll q).rename p q = none ↔ p <+: q ∨ q <+: p := by
  have hgone : (t.removeAll q).node q = none := by rw [node_removeAll, if_pos List.prefix_rfl]
  constructor
  · intro hnone
    by_contra hnot
    obtain ⟨hpq, hqp⟩ := not_or.1 hnot
    have hdiff : p ≠ q := fun heq => hpq (heq ▸ List.prefix_rfl)
    have hsource : (t.removeAll q).node p = some a := by rw [node_removeAll, if_neg hqp, ha]
    have hparent : (t.removeAll q).node q.dropLast = some .dir := by
      rw [node_removeAll, if_neg fun h => ?_]
      · exact node_dropLast hb hne
      · have hle := h.length_le
        have hpos := List.length_pos_iff.2 hne
        rw [List.length_dropLast] at hle
        omega
    have hrenames : (t.removeAll q).Renames p q := by
      refine ⟨hsource ▸ nofun, ⟨hne, hparent⟩, hpq, ?_, ?_⟩
      · rw [hgone]
        exact nofun
      · intro x hx hqx
        have hout : ¬ q <+: x.1 := by simpa using (List.mem_filter.1 hx).2
        exact absurd hqx hout
    unfold rename at hnone
    rw [if_neg hdiff, dif_pos hrenames] at hnone
    cases hnone
  · intro h
    unfold rename
    split
    case isTrue heq => rw [heq, hgone]; rfl
    case isFalse hdiff =>
      refine dif_neg fun hrenames => ?_
      rcases h with h | h
      · exact hrenames.apart h
      · exact hrenames.source (by rw [node_removeAll, if_pos h])

/-! ### Runs of operations -/

inductive Evolves (t : FileTree κ β) : FileTree κ β → Prop where
  | refl : Evolves t t
  | mkdir {u v : FileTree κ β} {p : List κ} : Evolves t u → u.mkdir p = some v → Evolves t v
  | create {u v : FileTree κ β} {p : List κ} {content : β} :
    Evolves t u → u.create p content = some v → Evolves t v
  | write {u : FileTree κ β} {inode : Nat} {content : β} :
    Evolves t u → Evolves t (u.write inode content)
  | removeAll {u : FileTree κ β} {p : List κ} : Evolves t u → Evolves t (u.removeAll p)
  | rename {u v : FileTree κ β} {p q : List κ} : Evolves t u → u.rename p q = some v → Evolves t v

structure Owned (t : FileTree κ β) : Prop where
  bound : ∀ p inode, t.node p = some (.file inode) → inode < t.contents.length
  own : ∀ p q inode, t.node p = some (.file inode) → t.node q = some (.file inode) → p = q

theorem Owned.of_files {t u : FileTree κ β} (h : t.Owned)
    (hlength : u.contents.length = t.contents.length)
    (hfiles : ∀ p inode, u.node p = some (.file inode) → t.node p = some (.file inode)) :
    u.Owned where
  bound := fun p inode hp => hlength ▸ h.bound p inode (hfiles p inode hp)
  own := fun p q inode hp hq => h.own p q inode (hfiles p inode hp) (hfiles q inode hq)

theorem Owned.mkdir {t u : FileTree κ β} {p : List κ} (h : t.Owned) (hmade : t.mkdir p = some u) :
    u.Owned := by
  unfold FileTree.mkdir at hmade
  split at hmade
  · obtain rfl := Option.some.inj hmade
    refine h.of_files rfl fun q inode hq => ?_
    rw [node_eq_some] at hq ⊢
    rcases List.mem_append.1 hq with hq | hq
    · exact hq
    · cases List.mem_singleton.1 hq
  · cases hmade

theorem Owned.create {t u : FileTree κ β} {p : List κ} {content : β} (h : t.Owned)
    (hmade : t.create p content = some u) : u.Owned := by
  unfold FileTree.create at hmade
  split at hmade
  · obtain rfl := Option.some.inj hmade
    exact h.of_files List.length_set fun q inode hq => hq
  · cases hmade
  · split at hmade
    case isFalse => cases hmade
    case isTrue hplaces =>
      obtain rfl := Option.some.inj hmade
      -- The new file has the first number that no other has.
      have hfile : ∀ q inode, (q, Node.file inode) ∈ t.entries ++ [(p, .file t.contents.length)] →
          (q, Node.file inode) ∈ t.entries ∧ inode < t.contents.length ∨
            q = p ∧ inode = t.contents.length := by
        intro q inode hq
        rcases List.mem_append.1 hq with hq | hq
        · exact .inl ⟨hq, h.bound q inode (node_eq_some.2 hq)⟩
        · cases List.mem_singleton.1 hq
          exact .inr ⟨rfl, rfl⟩
      refine ⟨fun q inode hq => ?_, fun q r inode hq hr => ?_⟩
      · rw [List.length_append, List.length_singleton]
        rcases hfile q inode (node_eq_some.1 hq) with ⟨-, hlt⟩ | ⟨-, rfl⟩
        · exact Nat.lt_succ_of_lt hlt
        · exact Nat.lt_succ_self _
      · rcases hfile q inode (node_eq_some.1 hq) with ⟨hq, hlt⟩ | ⟨rfl, rfl⟩
        · rcases hfile r inode (node_eq_some.1 hr) with ⟨hr, -⟩ | ⟨-, rfl⟩
          · exact h.own q r inode (node_eq_some.2 hq) (node_eq_some.2 hr)
          · exact absurd hlt (Nat.lt_irrefl _)
        · rcases hfile r _ (node_eq_some.1 hr) with ⟨-, hlt⟩ | ⟨rfl, -⟩
          · exact absurd hlt (Nat.lt_irrefl _)
          · rfl

theorem Owned.removeAll {t : FileTree κ β} (h : t.Owned) (p : List κ) : (t.removeAll p).Owned := by
  refine h.of_files rfl fun q inode hq => ?_
  rw [node_removeAll] at hq
  split at hq
  · cases hq
  · exact hq

theorem Owned.rename {t u : FileTree κ β} {p q : List κ} (h : t.Owned)
    (hmoved : t.rename p q = some u) : u.Owned := by
  unfold FileTree.rename at hmoved
  split at hmoved
  · obtain ⟨-, -, rfl⟩ := Option.map_eq_some_iff.1 hmoved
    exact h
  · split at hmoved
    case isFalse => cases hmoved
    case isTrue hrenames =>
      obtain rfl := Option.some.inj hmoved
      refine ⟨fun k inode hk => ?_, fun k l inode hk hl => ?_⟩
      · obtain ⟨k', hk', -, -⟩ := mem_renamed.1 (node_eq_some.1 hk)
        exact h.bound k' inode (node_eq_some.2 hk')
      · obtain ⟨k', hk', -, rfl⟩ := mem_renamed.1 (node_eq_some.1 hk)
        obtain ⟨l', hl', -, rfl⟩ := mem_renamed.1 (node_eq_some.1 hl)
        rw [h.own k' l' inode (node_eq_some.2 hk') (node_eq_some.2 hl')]

theorem Evolves.owned {t u : FileTree κ β} (hu : t.Evolves u) (h : t.Owned) : u.Owned := by
  induction hu with
  | refl => exact h
  | mkdir _ hmade ih => exact ih.mkdir hmade
  | create _ hmade ih => exact ih.create hmade
  | write _ ih => exact ih.of_files List.length_set fun q inode hq => hq
  | removeAll _ ih => exact ih.removeAll _
  | rename _ hmoved ih => exact ih.rename hmoved

end FileTree
end DolphinXR.Lib
