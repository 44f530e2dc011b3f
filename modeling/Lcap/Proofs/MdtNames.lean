import Lcap.Client.Start
import Lcap.Net.Signal
import Lcap.Proofs.Lines

namespace Lcap.Proofs
open Client Config Net Start Systems

/-! ## On the client -/

/-- The copy that `cl_start_pack` makes with `strncpy`. -/
def startMdtname (mdtname : List UInt8) : FieldCopy UInt8 :=
  copyInto (List.replicate 128 0) (strncpy mdtname 128)

theorem start_mdtname_field (mdtname : List UInt8) :
    (startMdtname mdtname).field = strncpy mdtname 128 := by
  have hlen := strncpy_length mdtname 128
  rw [startMdtname, copyInto, List.length_replicate, List.take_of_length_le (Nat.le_of_eq hlen),
    List.drop_eq_nil_of_le (by rw [List.length_replicate, hlen]), List.append_nil]

/-- It is what lies in the message at its place. -/
theorem start_pack_mdtname (flags : Nat) (mdtname : List UInt8) (startrec : Int) :
    (clStartPack flags mdtname startrec).drop 24 = (startMdtname mdtname).field := by
  have hhead : (packHdr .start ++ leBytes 4 flags ++ leBytes 4 0 ++ leInt64 startrec).length =
      24 := by
    simp [pack_hdr_length, leInt64, le_bytes_length]
  rw [clStartPack, start_mdtname_field, ← hhead, List.drop_left]

theorem rec_mdt_exact_iff (mdtname : List UInt8) :
    (recMdtCopy mdtname).Exact 0 mdtname ↔ mdtname.length < 128 := by
  rw [recMdtCopy, string_exact_iff, emptyName, List.length_replicate]

theorem start_mdtname_exact_iff (mdtname : List UInt8) :
    (startMdtname mdtname).Exact 0 mdtname ↔ mdtname.length < 128 := by
  have h := @padded_exact_iff UInt8 0 (List.replicate 128 0) mdtname
  rw [List.length_replicate] at h
  rw [startMdtname, strncpy]
  exact h

/-- The length passes modulo the range of an `int`, up to that of the field. -/
theorem accepted_iff (mdtname : List UInt8) :
    mdtnameTooLong mdtname = false ↔ mdtname.length % 2 ^ 32 ≤ 128 := by
  have hlen : recMdtLen mdtname = if (mdtname.length : Int) % 2 ^ 32 < 2 ^ 31 then
      (mdtname.length : Int) % 2 ^ 32 else (mdtname.length : Int) % 2 ^ 32 - 2 ^ 32 :=
        Int.bmod_def _ _
  rw [mdtnameTooLong, decide_eq_false_iff_not, hlen]
  split
  · omega
  · omega

/-! ## On the server -/

theorem signal_mdtname_exact_iff (device : List UInt8) :
    (signalMdtname device).Exact 0 device ↔ device.length < 128 := by
  rw [signalMdtname, string_exact_iff, List.length_replicate]

/-- No line is longer than the buffer has room for. -/
theorem fgets_length (hroom : 0 < room) (hleft : 0 < left) (hacc : acc.length + left ≤ room) :
    ∀ line ∈ fgetsLines room left acc s, line.length ≤ room := by
  induction s generalizing left acc with
  | nil =>
    intro line hm
    unfold fgetsLines at hm
    split at hm
    · cases hm
    · rw [List.mem_singleton.mp hm]
      omega
  | cons c s ih =>
    intro line hm
    unfold fgetsLines at hm
    split at hm
    · rcases List.mem_cons.mp hm with rfl | hm
      · rw [List.length_append, List.length_singleton]
        omega
      · exact ih hroom (by simp) line hm
    · refine ih (by omega) ?_ line hm
      rw [List.length_append, List.length_singleton]
      omega

/-- An argument comes behind its keyword and a blank. -/
theorem argument_length (hkey : keywordOf s = some d) (harg : sscanfArg s = some arg) :
    d.keyword.length + 1 + arg.length ≤ s.length := by
  obtain ⟨word, hs, hword⟩ := word_of_keyword hkey
  generalize s.drop d.keyword.length = rest at hs
  subst hs
  have hspace : ∀ x ∈ word, (!isspace x) = true := by
    intro x hx
    have hmem : tolower x ∈ d.keyword := hword ▸ List.mem_map_of_mem hx
    rw [(keyword_letter d hmem).1]
    rfl
  have hstart : (word ++ rest).dropWhile isspace = word ++ rest := by
    obtain ⟨c, word, rfl, hc, _⟩ := word_head hword
    exact List.dropWhile_cons_of_neg (by simp [hc])
  rw [sscanfArg, hstart, List.dropWhile_append_of_pos hspace] at harg
  have hgap := (List.dropWhile_sublist (!isspace ·) (l := rest)).length_le
  cases hblank : rest.dropWhile (!isspace ·) with
  | nil =>
    rw [hblank] at harg
    cases harg
  | cons b gap =>
    have hb : isspace b = true := by
      obtain ⟨_, _, _, hb⟩ := split_at_first hblank
      simpa using hb
    rw [hblank, List.dropWhile_cons_of_pos hb] at harg
    rw [hblank, List.length_cons] at hgap
    have hlen : arg.length ≤ (gap.dropWhile isspace).length := by
      split at harg
      · cases harg
      · rename_i hcons
        cases harg
        rw [hcons]
        exact Nat.le_trans (List.length_take_le' _ _) (List.takeWhile_sublist _).length_le
    have hskip := (List.dropWhile_sublist isspace (l := gap)).length_le
    rw [List.length_append, keyword_length hword]
    omega

theorem handler_mdt (d : Directive) (config : ParsedCfg) (io : LineIo) (s : List UInt8) :
    (handlerOf d config io s).1.ccfMdt = config.ccfMdt ∨
      (handlerOf d config io s).1.ccfMdt = config.ccfMdt ++ [(sscanfArg s).getD io.stack] := by
  cases hdup : io.strdup with
  | true =>
    rw [handler_of_eq d config io s hdup]
    by_cases href : d.Refused config
    · rw [if_pos href]
      exact .inl rfl
    · rw [if_neg href]
      cases d with
      | mdtdevice => exact .inr rfl
      | batchRecords | maxBuckets | logtype | workers | clreader => exact .inl rfl
  | false =>
    have harg : cfgGetArg io s = none := by simp [cfgGetArg, hdup]
    have hsame : (handlerOf d config io s).1 = config := by
      cases d with
      | batchRecords | maxBuckets =>
        simp only [handlerOf, handleCfgBatchRecordsLine, handleCfgMaxBucketsLine, harg]
      | logtype | workers | mdtdevice | clreader =>
        simp only [handlerOf, handleCfgLogtypeLine, handleCfgWorkersLine, handleCfgMdtdeviceLine,
          handleCfgClreaderLine, harg]
        split <;> rfl
    rw [hsame]
    exact .inl rfl

/-- A line that stores a name begins with a keyword. -/
theorem parse_mdt (config : ParsedCfg) (io : LineIo) (s : List UInt8) :
    (parseConfigLine config io s).1.ccfMdt = config.ccfMdt ∨
      ∃ d, keywordOf s = some d ∧
        (parseConfigLine config io s).1.ccfMdt = config.ccfMdt ++
        [(sscanfArg s).getD io.stack] := by
  unfold parseConfigLine
  split
  · exact .inl rfl
  split
  · exact .inl rfl
  rw [find_directive]
  cases hkey : keywordOf s with
  | none => exact .inl rfl
  | some d =>
    rcases handler_mdt d config io s with h | h
    · exact .inl h
    · exact .inr ⟨d, rfl, h⟩

/-- The name is stored from this line, or is the garbage that is there where the line has no
argument. -/
def StoredFrom (lines : List (List UInt8)) (io : Nat → LineIo) (name line : List UInt8) : Prop :=
  line ∈ lines ∧ ∃ k, name = (sscanfArg (cString line)).getD (io k).stack

/-- Whatever becomes of the file, each name that the parser has stored from a line with an
argument is shorter than the line. -/
theorem stored_length {lines : List (List UInt8)} (hlines : ∀ line ∈ lines, line.length ≤ 127)
    (io : Nat → LineIo) (k : Nat) (config : ParsedCfg) :
    ∀ name ∈ (parseLines io k config lines).1.ccfMdt, name ∈ config.ccfMdt ∨
      ∃ line, StoredFrom lines io name line ∧
        (sscanfArg (cString line) ≠ none → name.length < 128) := by
  induction lines generalizing k config with
  | nil => exact fun name hm => .inl hm
  | cons line rest ih =>
    intro name hm
    have hrest : ∀ config', name ∈ (parseLines io (k + 1) config' rest).1.ccfMdt →
        name ∈ config'.ccfMdt ∨ ∃ line', StoredFrom (line :: rest) io name line' ∧
          (sscanfArg (cString line') ≠ none → name.length < 128) := by
      intro config' hm
      rcases ih (fun l hl => hlines l (List.mem_cons_of_mem line hl)) (k + 1) config' name hm with
        h | ⟨line', ⟨hmem, hname⟩, hlen⟩
      · exact .inl h
      · exact .inr ⟨line', ⟨List.mem_cons_of_mem line hmem, hname⟩, hlen⟩
    have hthis : name ∈ (parseConfigLine config (io k) (cString line)).1.ccfMdt →
        name ∈ config.ccfMdt ∨ ∃ line', StoredFrom (line :: rest) io name line' ∧
          (sscanfArg (cString line') ≠ none → name.length < 128) := by
      intro hm
      rcases parse_mdt config (io k) (cString line) with h | ⟨d, hkey, h⟩
      · rw [h] at hm
        exact .inl hm
      rw [h] at hm
      rcases List.mem_append.mp hm with hm | hm
      · exact .inl hm
      have hname := List.mem_singleton.mp hm
      refine .inr ⟨line, ⟨List.mem_cons_self, k, hname⟩, fun harg => ?_⟩
      obtain ⟨arg, harg⟩ := Option.ne_none_iff_exists'.mp harg
      have hlen := argument_length hkey harg
      have hline := hlines line List.mem_cons_self
      have hseen := (List.takeWhile_sublist (fun x : UInt8 => decide (x ≠ 0)) (l := line)).length_le
      rw [hname, harg, Option.getD_some]
      simp only [cString] at hlen
      omega
    simp only [parseLines] at hm
    split at hm
    · exact hthis hm
    · rcases hrest _ hm with h | h
      · exact hthis h
      · exact .inr h

/-- A name that the client accepts is copied exactly when it is shorter than the fields; the
others are refused by their length modulo the range of an `int`. On the server the copy of
every name that has been read from a line is exact. -/
theorem mdt_names_copied (mdtname content : List UInt8) (io : Nat → LineIo) (config : ParsedCfg) :
    ((mdtnameTooLong mdtname = false →
        (recMdtCopy mdtname).Exact 0 mdtname ∧ (startMdtname mdtname).Exact 0 mdtname) ↔
      mdtname.length < 128 ∨ 128 < mdtname.length % 2 ^ 32) ∧
      ∀ name ∈ (parseLines io 0 config (fgetsLines 127 127 [] content)).1.ccfMdt,
        name ∈ config.ccfMdt ∨ ∃ line, StoredFrom (fgetsLines 127 127 [] content) io name line ∧
          (sscanfArg (cString line) ≠ none → (signalMdtname name).Exact 0 name) := by
  constructor
  · rw [rec_mdt_exact_iff, start_mdtname_exact_iff, accepted_iff, and_self]
    constructor
    · intro h
      by_cases hle : mdtname.length % 2 ^ 32 ≤ 128
      · exact .inl (h hle)
      · exact .inr (Nat.lt_of_not_le hle)
    · rintro (hlt | hbig) hle
      · exact hlt
      · exact absurd hle (Nat.not_le.mpr hbig)
  · intro name hm
    have hlines : ∀ line ∈ fgetsLines 127 127 [] content, line.length ≤ 127 :=
      fgets_length (by decide) (by decide) (by decide)
    rcases stored_length hlines io 0 config name hm with h | ⟨line, hstored, hlen⟩
    · exact .inl h
    · exact .inr ⟨line, hstored, fun harg => (signal_mdtname_exact_iff name).mpr (hlen harg)⟩

/-- A name as long as the fields is accepted: the terminator of the one copy is written
behind the field, and the other copy has none. -/
theorem longest_name_overruns :
    mdtnameTooLong (List.replicate 128 109) = false ∧
      (recMdtCopy (List.replicate 128 109)).written.length = 129 ∧
      ¬ (recMdtCopy (List.replicate 128 109)).Exact 0 (List.replicate 128 109) ∧
      0 ∉ (clStartPack 0 (List.replicate 128 109) 0).drop 24 ∧
      ¬ (startMdtname (List.replicate 128 109)).Exact 0 (List.replicate 128 109) :=
  ⟨by decide +kernel, rfl, fun h => absurd ((rec_mdt_exact_iff _).mp h) (by decide +kernel),
    by decide +kernel, fun h => absurd ((start_mdtname_exact_iff _).mp h) (by decide +kernel)⟩

/-! ## At the broker -/

/-- The broker reads the name that the reader was configured with. -/
theorem signal_names_device (hnul : 0 ∉ device) (hlen : device.length < 128) (errcode : Int) :
    Broker.prMdtname (packSignal errcode device) = device := by
  have hhead : (packHdr .signal ++ leInt64 errcode).length = 16 := by
    simp [pack_hdr_length, leInt64, le_bytes_length]
  have hfield : (signalMdtname device).field.length = 128 := by
    rw [signalMdtname, copy_into_length, List.length_replicate]
  obtain ⟨rest, hrest⟩ := ((signal_mdtname_exact_iff device).mpr hlen).copied
  rw [Broker.prMdtname, packSignal, ← hhead, List.drop_left,
    List.take_of_length_le (Nat.le_of_eq hfield),
    ← hrest, cString, List.append_assoc, List.takeWhile_append_of_pos]
  · simp
  · intro c hc
    simpa using fun h0 : c = 0 => hnul (h0 ▸ hc)

end Lcap.Proofs
