import Lcap.Proofs.Grammar

namespace Lcap.Proofs
open Config Systems

def Indented (line : List UInt8) : Prop := ∃ c ∈ line.head?, isspace c = true

instance (line : List UInt8) : Decidable (Indented line) :=
  inferInstanceAs (Decidable (∃ c ∈ line.head?, _))

/-! ## What `fgets` makes of one line -/

section
variable {line acc nl s p rest indent : List UInt8} {c : UInt8} {d : Directive} {room left : Nat}
  {io : Nat → LineIo} {config : ParsedCfg}

theorem blanks_nil : Blanks [] := by
  intro x hx
  cases hx

theorem blanks_newline (hnl : nl = [] ∨ nl = [10]) : Blanks nl := by
  rcases hnl with rfl | rfl
  · exact blanks_nil
  · intro x hx
    rw [List.mem_singleton.mp hx]
    rfl

theorem blanks_grown (hacc : Blanks acc) (hc : isspace c = true) : Blanks (acc ++ [c]) := by
  intro x hx
  rcases List.mem_append.mp hx with hx | hx
  · exact hacc x hx
  · rw [List.mem_singleton.mp hx]
    exact hc

theorem blanks_not_nul (h : Blanks s) : ∀ x ∈ s, decide (x ≠ 0) = true := by
  intro x hx
  have hspace := h x hx
  by_contra hz
  have hzero : x = 0 := by simpa using hz
  rw [hzero] at hspace
  exact absurd hspace (by decide)

/-- A newline ends what `fgets` returns, whatever comes behind it. -/
theorem fgets_split (hnl : 10 ∉ line) (room left : Nat) (acc rest : List UInt8) :
    fgetsLines room left acc (line ++ 10 :: rest) =
      fgetsLines room left acc (line ++ [10]) ++ fgetsLines room room [] rest := by
  induction line generalizing left acc with
  | nil => simp [fgetsLines]
  | cons c line ih =>
    have hnl' : 10 ∉ line := fun h => hnl (List.mem_cons_of_mem c h)
    simp only [List.cons_append, fgetsLines]
    split
    · rw [ih hnl', List.cons_append]
    · rw [ih hnl']

theorem fgets_blank (hacc : Blanks acc) (hs : Blanks s) :
    ∀ chunk ∈ fgetsLines room left acc s, Blanks chunk := by
  induction s generalizing left acc with
  | nil =>
    intro chunk hm
    unfold fgetsLines at hm
    split at hm
    · cases hm
    · rw [List.mem_singleton.mp hm]
      exact hacc
  | cons c s ih =>
    have hgrown := blanks_grown hacc (hs c List.mem_cons_self)
    have hs' : Blanks s := fun x hx => hs x (List.mem_cons_of_mem c hx)
    intro chunk hm
    unfold fgetsLines at hm
    split at hm
    · rcases List.mem_cons.mp hm with rfl | hm
      · exact hgrown
      · exact ih blanks_nil hs' chunk hm
    · exact ih hgrown hs' chunk hm

/-- A line that fits the buffer is returned as a whole. A newline that does not fit with it
comes as a line of its own. -/
theorem fgets_fits (hnl : nl = [] ∨ nl = [10]) (hno : 10 ∉ line) (hfit : line.length ≤ left)
    (hne : acc ++ line ≠ []) :
    ∃ tail more, fgetsLines room left acc (line ++ nl) = (acc ++ (line ++ tail)) :: more ∧
      (tail = [] ∨ tail = [10]) ∧ ∀ chunk ∈ more, Blanks chunk := by
  induction line generalizing left acc with
  | nil =>
    rw [List.append_nil] at hne
    rcases hnl with rfl | rfl
    · exact ⟨[], [], by simp [fgetsLines, hne], .inl rfl, fun _ hm => nomatch hm⟩
    · exact ⟨[10], [], by simp [fgetsLines], .inr rfl, fun _ hm => nomatch hm⟩
  | cons c line ih =>
    have hc : c ≠ 10 := fun h => hno (h ▸ List.mem_cons_self)
    have hno' : 10 ∉ line := fun h => hno (List.mem_cons_of_mem c h)
    rw [List.length_cons] at hfit
    by_cases hlast : left ≤ 1
    · have hnil : line = [] := List.length_eq_zero_iff.mp (by omega)
      subst hnil
      refine ⟨[], fgetsLines room room [] nl, ?_, .inl rfl,
        fgets_blank blanks_nil (blanks_newline hnl)⟩
      simp [fgetsLines, hlast]
    · obtain ⟨tail, more, he, htail, hmore⟩ : ∃ tail more,
          fgetsLines room (left - 1) (acc ++ [c]) (line ++ nl) =
            (acc ++ [c] ++ (line ++ tail)) :: more ∧
            (tail = [] ∨ tail = [10]) ∧ ∀ chunk ∈ more, Blanks chunk :=
        ih hno' (by omega) (by simp)
      refine ⟨tail, more, ?_, htail, hmore⟩
      rw [List.cons_append, fgetsLines, if_neg (by simp [hc, hlast]), he]
      simp

/-- The first chunk of what is left of a line is a beginning of it. -/
theorem fgets_first (hs : s ≠ []) :
    ∃ p more, fgetsLines room left acc s = (acc ++ p) :: more ∧ p ≠ [] ∧ p <+: s := by
  induction s generalizing left acc with
  | nil => exact absurd rfl hs
  | cons c s ih =>
    unfold fgetsLines
    split
    · exact ⟨[c], _, rfl, List.cons_ne_nil _ _, by simp⟩
    · by_cases hnil : s = []
      · subst hnil
        exact ⟨[c], [], by simp [fgetsLines], List.cons_ne_nil _ _, List.prefix_rfl⟩
      · obtain ⟨p, more, he, _, hp⟩ : ∃ p more,
            fgetsLines room (left - 1) (acc ++ [c]) s = (acc ++ [c] ++ p) :: more ∧
              p ≠ [] ∧ p <+: s :=
          ih hnil
        exact ⟨c :: p, more, by rw [he]; simp, List.cons_ne_nil _ _,
          List.cons_prefix_cons.mpr ⟨rfl, hp⟩⟩

/-! ## What the parser makes of one chunk -/

theorem parse_blank (h : Blanks s) (config : ParsedCfg) (io : LineIo) :
    parseConfigLine config io (cString s) = (config, 0) := by
  have hnil : (cString s).dropWhile isspace = [] := by
    rw [List.dropWhile_eq_nil_iff]
    exact fun x hx => h x ((List.takeWhile_sublist _).mem hx)
  simp only [parseConfigLine, hnil]

theorem parse_blanks (h : ∀ chunk ∈ chunks, Blanks chunk) (k : Nat) (config : ParsedCfg) :
    parseLines io k config chunks = (config, 0) := by
  induction chunks generalizing k with
  | nil => rfl
  | cons chunk chunks ih =>
    simp only [parseLines, parse_blank (h chunk List.mem_cons_self), ne_eq,
      not_true_eq_false, if_false]
    exact ih (fun chunk hm => h chunk (List.mem_cons_of_mem _ hm)) (k + 1)

theorem parse_append (a b : List (List UInt8)) (k : Nat) (config config' : ParsedCfg) :
    parseLines io k config (a ++ b) = (config', 0) ↔
      ∃ mid, parseLines io k config a = (mid, 0) ∧ parseLines io (k + a.length) mid b =
        (config', 0) := by
  induction a generalizing k config with
  | nil => simp [parseLines]
  | cons chunk a ih =>
    simp only [List.cons_append, parseLines, List.length_cons]
    by_cases hrc : (parseConfigLine config (io k) (cString chunk)).2 = 0
    · simp only [hrc, ne_eq, not_true_eq_false, if_false, ih]
      rw [Nat.add_right_comm, Nat.add_assoc]
    · have hneg : ∀ end_, parseConfigLine config (io k) (cString chunk) ≠ (end_, 0) :=
        fun _ he => hrc (congrArg Prod.snd he)
      simp only [if_pos hrc, hneg, false_and, exists_false]

/-- What the parser makes of an argument: the number may show in `errno`. -/
def readArg (config : ParsedCfg) (arg : List UInt8) (d : Directive) : ParsedCfg :=
  match d with
  | .batchRecords | .maxBuckets | .workers =>
    { d.set config arg with errno := atoiErrno arg config.errno }
  | .logtype | .mdtdevice | .clreader => d.set config arg

theorem read_arg_eq (h : ¬ d.Beyond arg) (config : ParsedCfg) :
    readArg config arg d = d.set config arg := by
  have hsame : ¬ beyondLong arg = true → atoiErrno arg config.errno = config.errno :=
    fun h => if_neg h
  cases d with
  | batchRecords | maxBuckets | workers => simp only [readArg, hsame h, Directive.set]
  | logtype | mdtdevice | clreader => rfl

theorem read_arg_beyond (h : d.Beyond arg) (config : ParsedCfg) :
    (readArg config arg d).errno = ERANGE := by
  cases d with
  | batchRecords | maxBuckets | workers => exact if_pos h
  | logtype | mdtdevice | clreader => exact h.elim

theorem set_errno (d : Directive) (config : ParsedCfg) (arg : List UInt8) :
    (d.set config arg).errno = config.errno := by
  cases d <;> rfl

/-- Nothing resets `errno`. -/
theorem read_arg_errno (h : config.errno ≠ 0) (d : Directive) (arg : List UInt8) :
    (readArg config arg d).errno ≠ 0 := by
  by_cases hbeyond : d.Beyond arg
  · rw [read_arg_beyond hbeyond]
    decide
  · rw [read_arg_eq hbeyond, set_errno]
    exact h

/-- The function of the parser that takes the directive. -/
def handlerOf : Directive → ParsedCfg → LineIo → List UInt8 → ParsedCfg × Int
  | .batchRecords => handleCfgBatchRecordsLine
  | .maxBuckets => handleCfgMaxBucketsLine
  | .logtype => handleCfgLogtypeLine
  | .workers => handleCfgWorkersLine
  | .mdtdevice => handleCfgMdtdeviceLine
  | .clreader => handleCfgClreaderLine

theorem handler_of_eq (d : Directive) (config : ParsedCfg) (io : LineIo) (s : List UInt8)
    (hdup : io.strdup = true) :
    handlerOf d config io s = if d.Refused config then (config, -EALREADY)
      else (readArg config ((sscanfArg s).getD io.stack) d, 0) := by
  have harg : cfgGetArg io s = some ((sscanfArg s).getD io.stack) := if_pos hdup
  by_cases href : d.Refused config
  · rw [if_pos href]
    cases d with
    | batchRecords | maxBuckets => exact href.elim
    | logtype | workers | mdtdevice | clreader => exact if_pos href
  · rw [if_neg href]
    cases d with
    | batchRecords | maxBuckets =>
      simp only [handlerOf, handleCfgBatchRecordsLine, handleCfgMaxBucketsLine, harg]
      rfl
    | logtype | workers | mdtdevice | clreader =>
      refine (if_neg href).trans ?_
      simp only [harg]
      rfl

theorem find_directive (s : List UInt8) :
    directives.find? (fun d => startswith s (bytes d.1)) =
      (keywordOf s).map fun d => (d.name, handlerOf d) := by
  have htable : directives = Directive.all.map fun d => (d.name, handlerOf d) := rfl
  rw [htable, List.find?_map]
  rfl

/-- A chunk that is neither blank nor a comment is taken for the directive that its first
bytes are the keyword of. -/
theorem parse_directive (hdrop : s.dropWhile isspace = c :: rest) (hc : c ≠ 35) {io : LineIo}
    (hdup : io.strdup = true) (config : ParsedCfg) :
    parseConfigLine config io s = match keywordOf s with
      | none => (config, -EINVAL)
      | some d => if d.Refused config then (config, -EALREADY)
        else (readArg config ((sscanfArg s).getD io.stack) d, 0) := by
  simp only [parseConfigLine, hdrop, if_neg hc, find_directive]
  cases keywordOf s with
  | none => rfl
  | some d => exact handler_of_eq d config io s hdup

theorem parse_comment (hindent : Blanks indent) (rest : List UInt8) (config : ParsedCfg)
    (io : LineIo) :
    parseConfigLine config io (cString (indent ++ 35 :: rest)) = (config, 0) := by
  have hseen : cString (indent ++ 35 :: rest) = indent ++ 35 :: cString rest := by
    rw [cString, List.takeWhile_append_of_pos (blanks_not_nul hindent)]
    rfl
  have hdrop : (indent ++ 35 :: cString rest).dropWhile isspace = 35 :: cString rest :=
    dropWhile_to_first hindent rfl
  rw [hseen]
  simp only [parseConfigLine, hdrop, if_true]

/-- Nothing resets `errno`. -/
theorem parse_errno {io : Nat → LineIo} (hdup : ∀ k, (io k).strdup = true) (h : config.errno ≠ 0)
    (k : Nat) (chunks : List (List UInt8)) : (parseLines io k config chunks).1.errno ≠ 0 := by
  induction chunks generalizing k config with
  | nil => exact h
  | cons chunk chunks ih =>
    have hchunk : (parseConfigLine config (io k) (cString chunk)).1.errno ≠ 0 := by
      cases hdrop : (cString chunk).dropWhile isspace with
      | nil => simpa only [parseConfigLine, hdrop] using h
      | cons c rest =>
        by_cases hc : c = 35
        · simpa only [parseConfigLine, hdrop, if_pos hc] using h
        · rw [parse_directive hdrop hc (hdup k)]
          cases keywordOf (cString chunk) with
          | none => exact h
          | some d =>
            by_cases href : d.Refused config
            · simpa only [if_pos href] using h
            · simpa only [if_neg href] using read_arg_errno h d _
    simp only [parseLines]
    split
    · exact hchunk
    · exact ih hchunk (k + 1)

/-! ## What it makes of one line -/

/-- The newline does not belong to the argument. -/
theorem sscanf_arg_newline (hnl : nl = [] ∨ nl = [10]) (s : List UInt8) :
    sscanfArg (s ++ nl) = sscanfArg s := by
  rcases hnl with rfl | rfl
  · rw [List.append_nil]
  have hblank : isspace 10 = true := rfl
  have hempty : ([10] : List UInt8).dropWhile isspace = [] := rfl
  have hstays : ([10] : List UInt8).dropWhile (!isspace ·) = [10] := rfl
  have hword : ∀ t : List UInt8, ((t ++ [10]).takeWhile (!isspace ·)) =
      t.takeWhile (!isspace ·) := by
    intro t
    rw [List.takeWhile_append]
    split
    · rename_i hall
      have heq := (List.takeWhile_prefix (!isspace ·) (l := t)).eq_of_length hall
      rw [heq, List.takeWhile_cons_of_neg (by simp [hblank]), List.append_nil]
    · rfl
  unfold sscanfArg
  rw [List.dropWhile_append]
  cases s.dropWhile isspace with
  | nil => rfl
  | cons a t =>
    rw [List.isEmpty_cons, if_neg Bool.false_ne_true, List.dropWhile_append]
    cases (a :: t).dropWhile (!isspace ·) with
    | nil => rfl
    | cons b u =>
      rw [List.isEmpty_cons, if_neg Bool.false_ne_true, List.dropWhile_append]
      cases (b :: u).dropWhile isspace with
      | nil => rfl
      | cons c v =>
        rw [List.isEmpty_cons, if_neg Bool.false_ne_true, List.cons_append]
        simp only [← List.cons_append, hword]

/-- No keyword has a blank in it. -/
theorem keyword_of_newline (hnl : nl = [] ∨ nl = [10]) (s : List UInt8) :
    keywordOf (s ++ nl) = keywordOf s := by
  rcases hnl with rfl | rfl
  · rw [List.append_nil]
  have hsame : ∀ d, keywordOf (s ++ [10]) = some d ↔ keywordOf s = some d := by
    intro d
    rw [keyword_of_iff, keyword_of_iff, List.map_append]
    constructor
    · intro h
      rcases List.prefix_concat_iff.mp h with heq | hp
      · have hmem : tolower 10 ∈ d.keyword := heq ▸ List.mem_append_right _ List.mem_cons_self
        exact absurd (keyword_letter d hmem).1 (by decide)
      · exact hp
    · exact fun hp => hp.trans (List.prefix_append _ _)
  exact Option.ext hsame

theorem keyword_of_indented (h : Indented s) : keywordOf s = none := by
  obtain ⟨c, hc, hspace⟩ := h
  obtain ⟨rest, rfl⟩ := List.head?_eq_some_iff.mp hc
  cases hd : keywordOf (c :: rest) with
  | none => rfl
  | some d =>
    obtain ⟨word, hline, hword⟩ := word_of_keyword hd
    obtain ⟨c', word', rfl, hspace', _⟩ := word_head hword
    obtain ⟨rfl, _⟩ := List.cons.inj hline
    rw [hspace] at hspace'
    cases hspace'

theorem keyword_of_prefix (h : keywordOf p = some d) (hp : p <+: s) : keywordOf s = some d := by
  rw [keyword_of_iff] at h ⊢
  exact h.trans (hp.map tolower)

/-- The chunk in which a line begins with its first word, behind blanks of the same chunk. -/
theorem refused_chunk (hacc : Blanks acc) (hspace : isspace c = false) (hnul : c ≠ 0)
    (hhash : c ≠ 35) (hp : c :: p <+: c :: rest ++ nl) (hnl : nl = [] ∨ nl = [10])
    (href : ∀ d ∈ keywordOf (c :: rest), d.Refused config) {io : LineIo} (hdup : io.strdup = true) :
    (parseConfigLine config io (cString (acc ++ c :: p))).2 ≠ 0 := by
  have hseen : cString (acc ++ c :: p) = acc ++ c :: cString p := by
    rw [cString, List.takeWhile_append_of_pos (blanks_not_nul hacc),
      List.takeWhile_cons_of_pos (by simpa using hnul)]
    rfl
  have hdrop : (acc ++ c :: cString p).dropWhile isspace = c :: cString p :=
    dropWhile_to_first hacc hspace
  rw [hseen, parse_directive hdrop hhash hdup]
  cases hd : keywordOf (acc ++ c :: cString p) with
  | none => exact (by decide : -EINVAL ≠ 0)
  | some d =>
    have hnone : acc = [] := by
      cases acc with
      | nil => rfl
      | cons a acc =>
        have hind : Indented (a :: acc ++ c :: cString p) := ⟨a, rfl, hacc a List.mem_cons_self⟩
        rw [keyword_of_indented hind] at hd
        cases hd
    subst hnone
    have hbegin : c :: cString p <+: c :: rest ++ nl :=
      (List.cons_prefix_cons.mpr ⟨rfl, List.takeWhile_prefix _⟩).trans hp
    have hkey := keyword_of_prefix hd hbegin
    rw [keyword_of_newline hnl] at hkey
    simp only [if_pos (href d hkey)]
    exact (by decide : -EALREADY ≠ 0)

/-- Whatever the length of a line, the chunk with its first word is refused if that is no
keyword, or one that is not free. -/
theorem refused_line (hacc : Blanks acc) (hindent : Blanks indent) (hspace : isspace c = false)
    (hnul : c ≠ 0) (hhash : c ≠ 35) (hnl : nl = [] ∨ nl = [10])
    (href : ∀ d ∈ keywordOf (c :: rest), d.Refused config) (hdup : ∀ k, (io k).strdup = true)
    (k : Nat) :
    (parseLines io k config (fgetsLines room left acc (indent ++ (c :: rest ++ nl)))).2 ≠ 0 := by
  induction indent generalizing acc left k with
  | nil =>
    obtain ⟨p, more, he, hne, hp⟩ : ∃ p more,
        fgetsLines room left acc (c :: rest ++ nl) = (acc ++ p) :: more ∧ p ≠ [] ∧
          p <+: c :: rest ++ nl :=
      fgets_first (List.cons_ne_nil _ _)
    obtain ⟨c', p, rfl⟩ := List.exists_cons_of_ne_nil hne
    obtain ⟨rfl, _⟩ := List.cons_prefix_cons.mp hp
    have hrc := refused_chunk hacc hspace hnul hhash hp hnl href (hdup k)
    rw [List.nil_append, he]
    simp only [parseLines, if_pos hrc]
    exact hrc
  | cons b indent ih =>
    have hb := hindent b List.mem_cons_self
    have hindent' : Blanks indent := fun x hx => hindent x (List.mem_cons_of_mem b hx)
    have hgrown := blanks_grown hacc hb
    rw [List.cons_append, fgetsLines]
    split
    · simp only [parseLines, parse_blank hgrown, ne_eq, not_true_eq_false, if_false]
      exact ih blanks_nil hindent' (k + 1)
    · exact ih hgrown hindent' k

end

end Lcap.Proofs
