import DolphinXR.Common.SettingsHandler
import Mathlib.Data.List.Nodup

/- What is written to setting.txt is read back. The writer holds the encoded text of its lines and
   zeros behind it; a line that is written again leaves bytes of the last attempt, which the next
   one covers. The reader sees the text without its carriage returns, and behind it the bytes of the
   keys, which have no line feed and no equals sign, so that a key is only found at the beginning of
   its own line. -/
namespace DolphinXR.Common
open Lib

/-! ### Writer -/

namespace SettingsWriter

/-- The text is written; behind it, all but the first `dirty` bytes are zero. -/
structure Holds (w : SettingsWriter) (text : Bytes) (dirty : Nat) : Prop where
  position : w.position = text.length
  key : w.key = keyAt text.length
  buffer : ∃ rest, w.buffer = encodeFrom 0 text ++ rest ∧ text.length + rest.length = 0x100 ∧
    ∀ b ∈ rest.drop dirty, b = 0

theorem holds_new : Holds {} [] 0 where
  position := rfl
  key := rfl
  buffer := by
    refine ⟨List.replicate 0x100 0, rfl, ?_, fun _ => List.eq_of_mem_replicate⟩
    rw [List.length_replicate]
    rfl

theorem Holds.writeByte {w : SettingsWriter} {text : Bytes} {dirty : Nat} (h : w.Holds text dirty)
    (hroom : text.length < 0x100) (b : UInt8) :
    (w.writeByte b).Holds (text ++ [b]) (dirty - 1) := by
  obtain ⟨rest, hbuffer, htotal, hzero⟩ := h.buffer
  obtain ⟨r, rest, rfl⟩ : ∃ r rest', rest = r :: rest' := by
    cases rest with
    | nil => simp only [List.length_nil] at htotal; omega
    | cons r rest => exact ⟨r, rest, rfl⟩
  rw [List.length_cons] at htotal
  have hlength : w.buffer.length = 0x100 := by
    rw [hbuffer, List.length_append, length_encodeFrom, List.length_cons]
    omega
  have hroom' : ¬ w.position ≥ w.buffer.length := by
    rw [h.position, hlength]
    omega
  unfold SettingsWriter.writeByte
  rw [if_neg hroom']
  constructor
  · dsimp only
    rw [h.position, List.length_append]
    rfl
  · dsimp only
    rw [h.key, ← keyAt_succ, List.length_append]
    rfl
  · refine ⟨rest, ?_, ?_, fun c hc => hzero c ?_⟩
    · have hset : (encodeFrom 0 text ++ r :: rest).set text.length (encodeByte b w.key) =
          encodeFrom 0 text ++ encodeByte b w.key :: rest := by
        have hfront := length_encodeFrom 0 text
        rw [List.set_append_right _ _ hfront.le, hfront, Nat.sub_self]
        rfl
      dsimp only
      rw [hbuffer, h.position, hset, encodeFrom_append, h.key, List.append_assoc, Nat.zero_add]
      rfl
    · rw [List.length_append, List.length_singleton]
      omega
    · cases dirty with
      | zero => exact List.mem_cons_of_mem _ hc
      | succ dirty => exact hc

theorem Holds.writeBytes {w : SettingsWriter} {text : Bytes} {dirty : Nat} (h : w.Holds text dirty)
    {str : Bytes} (hroom : text.length + str.length ≤ 0x100) :
    (w.writeBytes str).Holds (text ++ str) (dirty - str.length) := by
  induction str generalizing w text dirty with
  | nil =>
    rw [List.append_nil]
    exact h
  | cons b str ih =>
    rw [List.length_cons] at hroom
    have hbyte := h.writeByte (by omega) b
    have hrest := ih hbyte (by rw [List.length_append, List.length_singleton]; omega)
    rw [List.append_assoc, Nat.sub_sub, Nat.add_comm 1] at hrest
    exact hrest

theorem Holds.written {w w' : SettingsWriter} {text str : Bytes} {dirty dirty' : Nat}
    (h : w.Holds text dirty) (h' : w'.Holds (text ++ str) dirty') :
    w'.written w.position = encodeFrom text.length str := by
  obtain ⟨rest, hbuffer, -, -⟩ := h'.buffer
  have hfront := length_encodeFrom 0 text
  have hpiece := length_encodeFrom text.length str
  have hmiddle := slice_middle (encodeFrom 0 text) (encodeFrom text.length str) rest
  rw [hfront, hpiece] at hmiddle
  rw [SettingsWriter.written, hbuffer, h.position, h'.position, encodeFrom_append, Nat.zero_add,
    List.append_assoc, List.length_append, Nat.add_sub_cancel_left, hmiddle]

theorem Holds.retry {w w' : SettingsWriter} {text str : Bytes} {dirty : Nat}
    (h : w.Holds text dirty) (h' : w'.Holds (text ++ str) 0) (hroom : text.length < 0x100) :
    (SettingsWriter.retry w' w).Holds (text ++ [lineFeed]) (str.length - 1) := by
  suffices hback : Holds { w' with key := w.key, position := w.position } text str.length from
    hback.writeByte hroom lineFeed
  refine ⟨h.position, h.key, ?_⟩
  obtain ⟨rest, hbuffer, htotal, hzero⟩ := h'.buffer
  have hpiece := length_encodeFrom text.length str
  refine ⟨encodeFrom text.length str ++ rest, ?_, ?_, fun b hb => hzero b ?_⟩
  · rw [hbuffer, encodeFrom_append, Nat.zero_add, List.append_assoc]
  · rw [List.length_append] at htotal ⊢
    omega
  · rw [List.drop_append, hpiece, Nat.sub_self, List.drop_eq_nil_of_le (by omega)] at hb
    exact hb

theorem Holds.writeLine {w : SettingsWriter} {text str : Bytes} {dirty feeds : Nat}
    (h : w.Holds text dirty) (hdirty : dirty ≤ str.length)
    (hroom : text.length + feeds + str.length ≤ 0x100)
    (hlast : 0 ∉ encodeFrom (text.length + feeds) str)
    (hfirst : ∀ n < feeds, 0 ∈ encodeFrom (text.length + n) str) :
    (w.writeLine str).Holds (text ++ (List.replicate feeds lineFeed ++ str)) 0 := by
  have hattempt : (w.writeBytes str).Holds (text ++ str) 0 := by
    have hbytes := h.writeBytes (by omega : text.length + str.length ≤ 0x100)
    rwa [Nat.sub_eq_zero_of_le hdirty] at hbytes
  induction feeds generalizing w text dirty with
  | zero =>
    rw [SettingsWriter.writeLine, if_neg (by rw [h.written hattempt]; exact hlast)]
    exact hattempt
  | succ feeds ih =>
    have hzero : 0 ∈ encodeFrom text.length str := hfirst 0 (Nat.succ_pos feeds)
    rw [SettingsWriter.writeLine, if_pos (by rw [h.written hattempt]; exact hzero)]
    have hretry := h.retry hattempt (by omega)
    have hlength : (text ++ [lineFeed]).length = text.length + 1 := List.length_append
    have hroom' : (text ++ [lineFeed]).length + feeds + str.length ≤ 0x100 := by omega
    have hrest := ih hretry (by omega) hroom'
      (by rw [hlength, Nat.add_assoc, Nat.add_comm 1]; exact hlast)
      (fun n hn => by
        rw [hlength, Nat.add_assoc, Nat.add_comm 1]
        exact hfirst (n + 1) (by omega))
      (by
        have hbytes := hretry.writeBytes (by omega : (text ++ [lineFeed]).length + str.length ≤ 0x100)
        rwa [Nat.sub_eq_zero_of_le (by omega)] at hbytes)
    rw [List.append_assoc] at hrest
    exact hrest

open SettingsLine in
theorem Holds.addSettings {w : SettingsWriter} {text : Bytes} (h : w.Holds text 0)
    {lines : List SettingsLine} (hlines : Encoded text.length lines)
    (hroom : text.length + (stream lines).length ≤ 0x100) :
    ((lines.map fun l => (l.key, l.value)).foldl (fun w s => w.addSetting s.1 s.2) w).Holds
      (text ++ stream lines) 0 := by
  induction lines generalizing w text with
  | nil =>
    rw [stream, List.flatMap_nil, List.append_nil]
    exact h
  | cons l lines ih =>
    obtain ⟨hlast, hfirst, hrest⟩ := hlines
    have hstream : stream (l :: lines) = l.text ++ stream lines := List.flatMap_cons
    have htext : l.text.length = l.feeds + l.str.length := by
      rw [SettingsLine.text, List.length_append, List.length_replicate]
    rw [hstream, List.length_append] at hroom
    have hline : (w.addSetting l.key l.value).Holds (text ++ l.text) 0 :=
      h.writeLine (Nat.zero_le _) (by change _ + _ + l.str.length ≤ _; omega) hlast hfirst
    rw [hstream, ← List.append_assoc]
    refine ih hline ?_ ?_
    · rwa [List.length_append]
    · rw [List.length_append]
      omega

end SettingsWriter

/-! ### Reader -/

def Clean (t : Bytes) : Prop := ∀ c ∈ t, c ∉ [lineFeed, carriageReturn, equalsSign]

theorem Clean.lineFeed_not_mem {t : Bytes} (h : Clean t) : lineFeed ∉ t :=
  fun hmem => h _ hmem (by decide)

theorem Clean.equalsSign_not_mem {t : Bytes} (h : Clean t) : equalsSign ∉ t :=
  fun hmem => h _ hmem (by decide)

theorem Clean.filter {t : Bytes} (h : Clean t) : t.filter (· ≠ carriageReturn) = t := by
  refine List.filter_eq_self.2 fun c hc => decide_eq_true fun hreturn => h c hc ?_
  rw [hreturn]
  decide

def behind (pattern l : Bytes) : Option Bytes :=
  (Search.find pattern l).map fun e => l.drop (e + pattern.length)

/-- What `GetValue` looks for first. -/
def needle (key : Bytes) : Bytes := lineFeed :: (key ++ [equalsSign])

theorem behind_skip {pattern before : Bytes} {c : UInt8} (h : c ∉ before) (rest : Bytes) :
    behind (c :: pattern) (before ++ rest) = behind (c :: pattern) rest := by
  rw [behind, behind, Search.find_append_of_not_mem h, Option.map_map]
  congr 1
  funext e
  change (before ++ rest).drop (e + before.length + _) = _
  rw [Nat.add_right_comm, Nat.add_comm, ← List.drop_drop, List.drop_left]

theorem behind_prefix (pattern rest : Bytes) (c : UInt8) :
    behind (c :: pattern) (c :: (pattern ++ rest)) = some rest := by
  have hstarts : c :: pattern <+: c :: (pattern ++ rest) := List.prefix_append (c :: pattern) rest
  rw [behind, Search.find, if_pos hstarts, Option.map_some, Nat.zero_add]
  exact congrArg some List.drop_left

theorem behind_not_prefix {pattern rest : Bytes} {c : UInt8} (h : ¬ pattern <+: rest) :
    behind (c :: pattern) (c :: rest) = behind (c :: pattern) rest := by
  have hnot : ¬ c :: pattern <+: c :: rest := fun hstarts => h (List.cons_prefix_cons.1 hstarts).2
  rw [behind, behind, Search.find, if_neg hnot, Option.map_map]
  congr 1
  funext e
  change (c :: rest).drop (e + 1 + _) = _
  rw [Nat.add_right_comm, List.drop_succ_cons]

theorem behind_none {pattern rest : Bytes} {c : UInt8} (h : c ∉ rest) :
    behind (c :: pattern) rest = none := by
  have hskip : behind (c :: pattern) (rest ++ []) = none := behind_skip h []
  rwa [List.append_nil] at hskip

theorem key_of_starts {key k : Bytes} (hkey : equalsSign ∉ key) (hk : equalsSign ∉ k) (rest : Bytes) :
    key ++ [equalsSign] <+: k ++ equalsSign :: rest ↔ key = k := by
  induction key generalizing k with
  | nil =>
    cases k with
    | nil => simp
    | cons c k => simp [List.ne_of_not_mem_cons hk]
  | cons d key ih =>
    rw [List.mem_cons, not_or] at hkey
    cases k with
    | nil => simp [Ne.symm hkey.1]
    | cons c k =>
      rw [List.mem_cons, not_or] at hk
      rw [List.cons_append, List.cons_append, List.cons_prefix_cons, ih hkey.2 hk.2, List.cons.injEq]

namespace SettingsLine

def shown (l : SettingsLine) : Bytes :=
  List.replicate l.feeds lineFeed ++ (l.key ++ equalsSign :: (l.value ++ [lineFeed]))

structure Readable (l : SettingsLine) : Prop where
  key_ne_nil : l.key ≠ []
  key_clean : Clean l.key
  value_clean : Clean l.value

theorem filter_text {l : SettingsLine} (h : l.Readable) :
    l.text.filter (· ≠ carriageReturn) = l.shown := by
  have hfeeds : (List.replicate l.feeds lineFeed).filter (· ≠ carriageReturn) =
      List.replicate l.feeds lineFeed :=
    List.filter_eq_self.2 fun c hc => by rw [List.eq_of_mem_replicate hc]; decide
  rw [text, str, List.filter_append, hfeeds, List.filter_append, List.filter_append,
    h.key_clean.filter, List.append_assoc, shown]
  congr 2
  rw [List.filter_cons_of_pos (by decide), h.value_clean.filter, List.cons_append]
  rfl

theorem filter_stream {lines : List SettingsLine} (h : ∀ l ∈ lines, l.Readable) :
    (stream lines).filter (· ≠ carriageReturn) = lines.flatMap shown := by
  induction lines with
  | nil => rfl
  | cons l lines ih =>
    rw [stream, List.flatMap_cons, List.filter_append, filter_text (h l (List.mem_cons_self ..)),
      List.flatMap_cons, ← ih fun m hm => h m (List.mem_cons_of_mem _ hm), stream]

theorem behind_feeds {key : Bytes} (hne : key ≠ []) (hkey : Clean key) (feeds : Nat) (rest : Bytes) :
    behind (needle key) (lineFeed :: (List.replicate feeds lineFeed ++ rest)) =
      behind (needle key) (lineFeed :: rest) := by
  induction feeds with
  | zero => rfl
  | succ feeds ih =>
    have hnot : ¬ key ++ [equalsSign] <+: lineFeed :: (List.replicate feeds lineFeed ++ rest) := by
      obtain ⟨c, key, rfl⟩ := List.exists_cons_of_ne_nil hne
      intro hstarts
      have hc : c = lineFeed := (List.cons_prefix_cons.1 hstarts).1
      exact hkey.lineFeed_not_mem (hc ▸ List.mem_cons_self ..)
    rw [List.replicate_succ, List.cons_append, needle, behind_not_prefix hnot]
    exact ih

theorem not_mem_before_value {l : SettingsLine} (h : l.Readable) :
    lineFeed ∉ l.key ++ equalsSign :: l.value := by
  rw [List.mem_append, List.mem_cons]
  rintro (hmem | heq | hmem)
  · exact h.key_clean.lineFeed_not_mem hmem
  · exact absurd heq (by decide)
  · exact h.value_clean.lineFeed_not_mem hmem

theorem behind_line {l : SettingsLine} (h : l.Readable) (key rest : Bytes) :
    behind (needle key) (l.key ++ equalsSign :: (l.value ++ lineFeed :: rest)) =
      behind (needle key) (lineFeed :: rest) := by
  have hskip : behind (needle key) (l.key ++ equalsSign :: l.value ++ lineFeed :: rest) = _ :=
    behind_skip (not_mem_before_value h) (lineFeed :: rest)
  rwa [List.append_assoc, List.cons_append] at hskip

theorem behind_lines {key garbage : Bytes} (hne : key ≠ []) (hkey : Clean key)
    (hgarbage : Clean garbage) {lines : List SettingsLine} (h : ∀ l ∈ lines, l.Readable) :
    (∃ l ∈ lines, l.key = key ∧ ∃ more,
      behind (needle key) (lineFeed :: (lines.flatMap shown ++ garbage)) =
        some (l.value ++ lineFeed :: more)) ∨
    (∀ l ∈ lines, l.key ≠ key) ∧
      behind (needle key) (lineFeed :: (lines.flatMap shown ++ garbage)) = none := by
  induction lines with
  | nil =>
    refine Or.inr ⟨nofun, ?_⟩
    have hnot : ¬ key ++ [equalsSign] <+: garbage := fun hstarts =>
      hgarbage.equalsSign_not_mem (hstarts.mem (by simp))
    rw [List.flatMap_nil, List.nil_append, needle, behind_not_prefix hnot]
    exact behind_none hgarbage.lineFeed_not_mem
  | cons l lines ih =>
    have hl := h l (List.mem_cons_self ..)
    have htext : lineFeed :: ((l :: lines).flatMap shown ++ garbage) =
        lineFeed :: (List.replicate l.feeds lineFeed ++ (l.key ++ equalsSign ::
          (l.value ++ lineFeed :: (lines.flatMap shown ++ garbage)))) := by
      simp [shown]
    rw [htext, behind_feeds hne hkey]
    by_cases heq : key = l.key
    · refine Or.inl ⟨l, List.mem_cons_self .., heq.symm, lines.flatMap shown ++ garbage, ?_⟩
      have hfound := behind_prefix (key ++ [equalsSign])
        (l.value ++ lineFeed :: (lines.flatMap shown ++ garbage)) lineFeed
      rw [List.append_assoc] at hfound
      rw [← heq]
      exact hfound
    · have hnot := mt (key_of_starts hkey.equalsSign_not_mem hl.key_clean.equalsSign_not_mem
        (l.value ++ lineFeed :: (lines.flatMap shown ++ garbage))).1 heq
      rw [needle, behind_not_prefix hnot, ← needle, behind_line hl]
      rcases ih fun m hm => h m (List.mem_cons_of_mem _ hm) with ⟨m, hm, hfound⟩ | ⟨hnone, hfound⟩
      · exact Or.inl ⟨m, List.mem_cons_of_mem _ hm, hfound⟩
      · exact Or.inr ⟨List.forall_mem_cons.2 ⟨Ne.symm heq, hnone⟩, hfound⟩

def FoundBehind (key decoded rest : Bytes) : Prop :=
  behind (needle key) decoded = some rest ∨
  behind (needle key) decoded = none ∧ decoded = key ++ [equalsSign] ++ rest

theorem foundBehind_lines {lines : List SettingsLine} (h : ∀ l ∈ lines, l.Readable)
    (hnodup : (lines.map SettingsLine.key).Nodup) {garbage : Bytes} (hgarbage : Clean garbage)
    {l : SettingsLine} (hl : l ∈ lines) :
    ∃ more, FoundBehind l.key (lines.flatMap shown ++ garbage) (l.value ++ lineFeed :: more) := by
  obtain ⟨hne, hclean, -⟩ := h l hl
  have hunique : ∀ m ∈ lines, m.key = l.key → m = l := fun m hm hkey =>
    List.inj_on_of_nodup_map hnodup hm hl hkey
  cases lines with
  | nil => exact absurd hl List.not_mem_nil
  | cons m lines =>
    have hm := h m (List.mem_cons_self ..)
    have hrest := fun k hk => h k (List.mem_cons_of_mem m hk)
    cases hfeeds : m.feeds with
    | zero =>
      have htext : (m :: lines).flatMap shown ++ garbage = m.key ++ equalsSign ::
          (m.value ++ lineFeed :: (lines.flatMap shown ++ garbage)) := by
        simp [shown, hfeeds]
      rw [htext]
      unfold FoundBehind
      rw [behind_line hm]
      rcases behind_lines hne hclean hgarbage hrest with ⟨k, hk, hkey, more, hfound⟩ | ⟨hnone, hfound⟩
      · rw [hunique k (List.mem_cons_of_mem _ hk) hkey] at hfound
        exact ⟨more, Or.inl hfound⟩
      · have hsame : m = l := by
          rcases List.mem_cons.1 hl with hhead | htail
          · exact hhead.symm
          · exact absurd rfl (hnone l htail)
        subst hsame
        exact ⟨lines.flatMap shown ++ garbage, Or.inr ⟨hfound, List.append_cons ..⟩⟩
    | succ feeds =>
      have htext : (m :: lines).flatMap shown ++ garbage =
          lineFeed :: (({ m with feeds } :: lines).flatMap shown ++ garbage) := by
        simp [shown, hfeeds, List.replicate_succ]
      rw [htext]
      have hreadable : ∀ k ∈ { m with feeds } :: lines, SettingsLine.Readable k :=
        List.forall_mem_cons.2 ⟨⟨hm.key_ne_nil, hm.key_clean, hm.value_clean⟩, hrest⟩
      rcases behind_lines hne hclean hgarbage hreadable with ⟨k, hk, hkey, more, hfound⟩ | ⟨hnone, -⟩
      · have hvalue : k.value = l.value := by
          rcases List.mem_cons.1 hk with rfl | hk
          · rw [← hunique m (List.mem_cons_self ..) hkey]
          · rw [hunique k (List.mem_cons_of_mem _ hk) hkey]
        rw [hvalue] at hfound
        exact ⟨more, Or.inl hfound⟩
      · exfalso
        rcases List.mem_cons.1 hl with rfl | hl
        · exact hnone _ (List.mem_cons_self ..) rfl
        · exact hnone l (List.mem_cons_of_mem _ hl) rfl

end SettingsLine

theorem SettingsReader.valueAt_of_drop {r : SettingsReader} {start : Nat} {value more : Bytes}
    (hdrop : r.decoded.drop start = value ++ lineFeed :: more) (hvalue : lineFeed ∉ value) :
    r.valueAt start = value := by
  have hfind : Search.find [lineFeed] (value ++ lineFeed :: more) = some value.length := by
    have hstarts : [lineFeed] <+: lineFeed :: more := List.prefix_append [lineFeed] more
    rw [Search.find_append_of_not_mem hvalue, Search.find, if_pos hstarts, Option.map_some,
      Nat.zero_add]
  rw [SettingsReader.valueAt, hdrop, hfind]
  exact List.take_left

theorem SettingsReader.getValue_of_foundBehind {r : SettingsReader} {key value more : Bytes}
    (h : SettingsLine.FoundBehind key r.decoded (value ++ lineFeed :: more))
    (hvalue : lineFeed ∉ value) : r.getValue key = value := by
  rcases h with hfound | ⟨hnone, htext⟩
  · obtain ⟨found, hfind, hdrop⟩ := Option.map_eq_some_iff.1 hfound
    unfold SettingsReader.getValue
    dsimp only
    rw [show Search.find (lineFeed :: key ++ [equalsSign]) r.decoded = some found from hfind]
    exact valueAt_of_drop hdrop hvalue
  · have hfind : Search.find (needle key) r.decoded = none := Option.map_eq_none_iff.1 hnone
    have hfirst : Search.find (key ++ [equalsSign]) r.decoded = some 0 := by
      have hstarts : key ++ [equalsSign] <+: r.decoded := by
        rw [htext]
        exact List.prefix_append ..
      cases hdecoded : r.decoded with
      | nil => simp [hdecoded] at htext
      | cons c rest =>
        rw [hdecoded] at hstarts
        rw [Search.find, if_pos hstarts]
    unfold SettingsReader.getValue
    dsimp only
    rw [show Search.find (lineFeed :: key ++ [equalsSign]) r.decoded = none from hfind, hfirst]
    have hdrop : r.decoded.drop (key ++ [equalsSign]).length = value ++ lineFeed :: more := by
      rw [htext, List.drop_left]
    exact valueAt_of_drop hdrop hvalue

/-! ### Both together -/

theorem clean_decodeFrom_zeros (n position : Nat) :
    Clean (SettingsReader.decodeFrom (keyAt position) (List.replicate n 0)) := by
  induction n generalizing position with
  | zero => exact nofun
  | succ n ih =>
    rw [List.replicate_succ, SettingsReader.decodeFrom, ← keyAt_succ]
    exact List.forall_mem_cons.2 ⟨encodeByte_zero_keyAt position, ih (position + 1)⟩

theorem encodeByte_eq_zero {b : UInt8} {key : Key} (h : encodeByte b key = 0) :
    encodeByte 0 key = b := by
  rw [← h, encodeByte_encodeByte]

theorem zero_not_mem_feeds (position feeds : Nat) :
    0 ∉ encodeFrom position (List.replicate feeds lineFeed) := by
  induction feeds generalizing position with
  | zero => exact List.not_mem_nil
  | succ feeds ih =>
    rw [List.replicate_succ, encodeFrom, List.mem_cons, not_or]
    refine ⟨fun hzero => ?_, ih (position + 1)⟩
    have hkey := encodeByte_zero_keyAt position
    rw [encodeByte_eq_zero hzero.symm] at hkey
    exact hkey (by decide)

open SettingsLine in
theorem zero_not_mem_stream {lines : List SettingsLine} {position : Nat}
    (h : Encoded position lines) : 0 ∉ encodeFrom position (stream lines) := by
  induction lines generalizing position with
  | nil => exact List.not_mem_nil
  | cons l lines ih =>
    obtain ⟨hline, -, hrest⟩ := h
    have hstream : stream (l :: lines) = l.text ++ stream lines := List.flatMap_cons
    rw [hstream, encodeFrom_append, List.mem_append, not_or, text, encodeFrom_append,
      List.mem_append, not_or, List.length_replicate]
    exact ⟨⟨zero_not_mem_feeds position l.feeds, hline⟩, ih hrest⟩

/-- Settings without line ends and equals signs that fit the buffer are written without a zero byte
    and read back, whatever their lines needed in front of them. -/
theorem settings_round_trip {settings : List (Bytes × Bytes)}
    (hkeys : ∀ s ∈ settings, s.1 ≠ [] ∧ Clean s.1) (hvalues : ∀ s ∈ settings, Clean s.2)
    (hnodup : (settings.map Prod.fst).Nodup) (hfits : Fits settings) :
    let w := SettingsWriter.ofSettings settings
    0 ∉ w.buffer.take w.position ∧
    ∀ s ∈ settings, (SettingsReader.ofBuffer w.buffer).getValue s.1 = s.2 := by
  obtain ⟨lines, rfl, hencoded, hroom⟩ := hfits
  intro w
  have hholds : w.Holds (SettingsLine.stream lines) 0 := by
    have hrun := SettingsWriter.holds_new.addSettings hencoded
      (by rwa [List.length_nil, Nat.zero_add])
    rwa [List.nil_append] at hrun
  have hreadable : ∀ l ∈ lines, l.Readable := by
    intro l hl
    have hmem : (l.key, l.value) ∈ lines.map fun l => (l.key, l.value) := List.mem_map_of_mem hl
    exact ⟨(hkeys _ hmem).1, (hkeys _ hmem).2, hvalues _ hmem⟩
  obtain ⟨rest, hbuffer, -, hzero⟩ := hholds.buffer
  have hlength := length_encodeFrom 0 (SettingsLine.stream lines)
  constructor
  · rw [hbuffer, hholds.position, ← hlength, List.take_left]
    exact zero_not_mem_stream hencoded
  · intro s hs
    obtain ⟨l, hl, rfl⟩ := List.mem_map.1 hs
    have hrest : rest = List.replicate rest.length 0 := List.eq_replicate_of_mem hzero
    have hgarbage := clean_decodeFrom_zeros rest.length (SettingsLine.stream lines).length
    have hdecoded : (SettingsReader.ofBuffer w.buffer).decoded =
        lines.flatMap SettingsLine.shown ++ SettingsReader.decodeFrom
          (keyAt (SettingsLine.stream lines).length) (List.replicate rest.length 0) := by
      rw [SettingsReader.ofBuffer, hbuffer, show initialSeed = keyAt 0 from rfl, decodeFrom_append,
        decodeFrom_encodeFrom, hlength, Nat.zero_add, List.filter_append,
        SettingsLine.filter_stream hreadable, ← hrest, hrest, hgarbage.filter]
    rw [List.map_map] at hnodup
    obtain ⟨more, hfound⟩ := SettingsLine.foundBehind_lines hreadable hnodup hgarbage hl
    rw [← hdecoded] at hfound
    exact SettingsReader.getValue_of_foundBehind hfound (hreadable l hl).value_clean.lineFeed_not_mem

/-- The key's first byte is that of the encoding key, so the line needs one line feed. -/
theorem settings_round_trip_line_feed :
    let settings : List (Bytes × Bytes) := [([0xfa], [0x61])]
    let w := SettingsWriter.ofSettings settings
    0 ∉ w.buffer.take w.position ∧
    ∀ s ∈ settings, (SettingsReader.ofBuffer w.buffer).getValue s.1 = s.2 := by
  refine settings_round_trip ?_ ?_ (by decide) ⟨[⟨1, [0xfa], [0x61]⟩], rfl, ?_, by decide⟩
  · simp [Clean, lineFeed, carriageReturn, equalsSign]
  · simp [Clean, lineFeed, carriageReturn, equalsSign]
  · exact ⟨by decide, by decide, trivial⟩

end DolphinXR.Common
