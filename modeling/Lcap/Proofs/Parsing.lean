import Lcap.Proofs.Lines

namespace Lcap.Proofs
open Config Systems

/-- The parser makes of a file what the grammar does. -/
def Faithful (fopen : List UInt8 → Option (List UInt8)) (io : Nat → LineIo) (config : ParsedCfg)
    (content : List UInt8) : Prop :=
  ∀ config', lcapParseConfigFile fopen io config = (config', 0) ↔
    FileSays config (content.splitOn 10) config'

/-- A keyword with its argument. -/
def Complete (line : List UInt8) : Prop := ∃ s, Says line (some s)

/-- The number that the parser reads in the line is a `long`. -/
def Readable (line : List UInt8) : Prop :=
  ∀ d ∈ keywordOf line, ∀ arg ∈ sscanfArg line, ¬ d.Beyond arg

/-- The line is blank, or a comment that fits the buffer of the parser, or its first word
is no keyword or one that is not free, or it fits and has no NUL and is a complete directive
unless it is indented or its number is no `long`. -/
def RegularLine (config : ParsedCfg) (line : List UInt8) : Prop :=
  ∀ c ∈ (line.dropWhile isspace).head?, if c = 35 then line.length ≤ 127
    else (c ≠ 0 ∧ ∀ d ∈ keywordOf (line.dropWhile isspace), d.Refused config) ∨
      (line.length ≤ 127 ∧ 0 ∉ line ∧ (Complete line ↔ ¬ Indented line ∧ Readable line))

/-- The lines are regular up to the first that the grammar refuses. -/
def RegularLines (config : ParsedCfg) : List (List UInt8) → Prop
  | [] => True
  | line :: rest =>
    RegularLine config line ∧ ∀ config' ∈ lineMeans config line, RegularLines config' rest

theorem complete_iff (line : List UInt8) :
    ((statement line).getD none).isSome = true ↔ Complete line := by
  rw [Option.isSome_iff_exists]
  refine exists_congr fun s => ?_
  rw [← statement_iff]
  cases statement line <;> simp

instance (line : List UInt8) : Decidable (Complete line) := decidable_of_iff _ (complete_iff line)

instance (line : List UInt8) : Decidable (Readable line) :=
  inferInstanceAs (Decidable (∀ d ∈ keywordOf line, _))

instance (config : ParsedCfg) (line : List UInt8) : Decidable (RegularLine config line) :=
  inferInstanceAs (Decidable (∀ c ∈ (line.dropWhile isspace).head?, _))

instance RegularLines.decidable (config : ParsedCfg) :
    (lines : List (List UInt8)) → Decidable (RegularLines config lines)
  | [] => .isTrue trivial
  | line :: rest =>
    have := fun config' => RegularLines.decidable config' rest
    inferInstanceAs (Decidable (RegularLine config line ∧
      ∀ config' ∈ lineMeans config line, RegularLines config' rest))

section
variable {line nl rest word gap arg tail : List UInt8} {c : UInt8} {d : Directive}
  {io : Nat → LineIo} {config config' : ParsedCfg}

/-- The parser comes to the end of these lines with `config'`, and would return zero there. -/
def Accepts (io : Nat → LineIo) (k : Nat) (config : ParsedCfg) (chunks : List (List UInt8))
    (config' : ParsedCfg) : Prop :=
  parseLines io k config chunks = (config', 0) ∧ config'.errno = 0

theorem accepts_append (hdup : ∀ k, (io k).strdup = true) (a b : List (List UInt8)) (k : Nat)
    (config config' : ParsedCfg) : Accepts io k config (a ++ b) config' ↔
      ∃ mid, Accepts io k config a mid ∧ Accepts io (k + a.length) mid b config' := by
  simp only [Accepts, parse_append]
  constructor
  · rintro ⟨⟨mid, ha, hb⟩, hzero⟩
    have hmid : mid.errno = 0 := by
      by_contra hne
      have hlast := parse_errno hdup hne (k + a.length) b
      rw [hb] at hlast
      exact hlast hzero
    exact ⟨mid, ⟨ha, hmid⟩, hb, hzero⟩
  · rintro ⟨mid, ⟨ha, _⟩, hb, hzero⟩
    exact ⟨⟨mid, ha, hb⟩, hzero⟩

theorem accepts_blanks (h : ∀ chunk ∈ chunks, Blanks chunk) (hzero : config.errno = 0) (k : Nat) :
    Accepts io k config chunks config' ↔ config' = config := by
  simp only [Accepts, parse_blanks h, Prod.mk.injEq, and_true]
  constructor
  · exact fun hsame => hsame.1.symm
  · rintro rfl
    exact ⟨rfl, hzero⟩

theorem line_means_errno (h : lineMeans config line = some config') :
    config'.errno = config.errno := by
  rcases (line_means_iff config line config').mp h with ⟨_, rfl⟩ | ⟨d, arg, _, _, rfl⟩
  · rfl
  · exact set_errno d config arg

/-! ## What it makes of a line that fits -/

theorem sscanf_arg (hword : word.map tolower = d.keyword) (hgap : Blanks gap) (hne : gap ≠ [])
    (harg : Word arg) (hfit : arg.length ≤ 254) (htail : ∀ c ∈ tail.head?, isspace c = true) :
    sscanfArg (word ++ (gap ++ (arg ++ tail))) = some arg := by
  have hstart : (word ++ (gap ++ (arg ++ tail))).dropWhile isspace = word ++
      (gap ++ (arg ++ tail)) := by
    obtain ⟨c, word, rfl, hspace, _⟩ := word_head hword
    exact List.dropWhile_cons_of_neg (by simp [hspace])
  have hkey : (word ++ (gap ++ (arg ++ tail))).dropWhile (!isspace ·) = gap ++ (arg ++ tail) := by
    obtain ⟨b, gap, rfl⟩ := List.exists_cons_of_ne_nil hne
    apply dropWhile_word
    · intro x hx
      have hmem : tolower x ∈ d.keyword := hword ▸ List.mem_map_of_mem hx
      rw [(keyword_letter d hmem).1]
      rfl
    · intro x hx
      cases hx
      rw [hgap b List.mem_cons_self]
      rfl
  have hgone : (gap ++ (arg ++ tail)).dropWhile isspace = arg ++ tail :=
    dropWhile_word hgap (word_ends harg tail)
  have htext := word_of_text harg htail
  obtain ⟨a, arg, rfl⟩ := List.exists_cons_of_ne_nil harg.1
  unfold sscanfArg
  rw [hstart, hkey, hgone]
  simp only [List.cons_append] at htext ⊢
  rw [htext, List.take_of_length_le hfit]

/-- A directive at the start of a line is read as the grammar reads it. -/
theorem says_parsed (h : Says line (some (d, arg))) (hind : ¬ Indented line)
    (hfit : line.length ≤ 127) : keywordOf line = some d ∧ sscanfArg line = some arg := by
  cases h with
  | @directive indent gap arg word tail d hindent hword hgap hne harg htail =>
    have hnone : indent = [] := by
      cases indent with
      | nil => rfl
      | cons b indent => exact absurd ⟨b, rfl, hindent b List.mem_cons_self⟩ hind
    subst hnone
    rw [List.nil_append] at hfit ⊢
    have hlen : arg.length ≤ 254 := by
      simp only [List.length_append] at hfit
      omega
    exact ⟨keyword_of_word hword _, sscanf_arg hword hgap hne harg hlen htail⟩

/-- What comes of a line that fits is what its first chunk makes. -/
theorem fits_parsed (hne : line ≠ []) (hfit : line.length ≤ 127) (hno : 10 ∉ line)
    (hnl : nl = [] ∨ nl = [10]) (io : Nat → LineIo) (k : Nat) (config : ParsedCfg) :
    ∃ tail, (tail = [] ∨ tail = [10]) ∧
      parseLines io k config (fgetsLines 127 127 [] (line ++ nl)) =
        parseConfigLine config (io k) (cString (line ++ tail)) := by
  obtain ⟨tail, more, he, htail, hmore⟩ : ∃ tail more,
      fgetsLines 127 127 [] (line ++ nl) = ([] ++ (line ++ tail)) :: more ∧
        (tail = [] ∨ tail = [10]) ∧ ∀ chunk ∈ more, Blanks chunk :=
    fgets_fits hnl hno hfit (by simpa using hne)
  refine ⟨tail, htail, ?_⟩
  rw [he, List.nil_append]
  simp only [parseLines, parse_blanks hmore]
  split
  · rfl
  · rename_i hrc
    exact Prod.ext rfl (not_not.mp hrc).symm

theorem comment_parsed (hdrop : line.dropWhile isspace = 35 :: rest) (hfit : line.length ≤ 127)
    (hno : 10 ∉ line) (hnl : nl = [] ∨ nl = [10]) (io : Nat → LineIo) (k : Nat)
    (config : ParsedCfg) :
    parseLines io k config (fgetsLines 127 127 [] (line ++ nl)) = (config, 0) := by
  obtain ⟨tail, _, he⟩ := fits_parsed (ne_nil_of_first hdrop) hfit hno hnl io k config
  obtain ⟨indent, rfl, hindent, _⟩ := split_at_first hdrop
  rw [he, List.append_assoc, List.cons_append]
  exact parse_comment hindent _ config (io k)

/-- A line that fits and has no NUL is taken for a directive if it begins with a keyword and
its number, if it is to have one, is a `long`. -/
theorem plain_parsed (hdrop : line.dropWhile isspace = c :: rest) (hhash : c ≠ 35)
    (hfit : line.length ≤ 127) (hnul : 0 ∉ line) (hno : 10 ∉ line) (hnl : nl = [] ∨ nl = [10])
    (hdup : ∀ k, (io k).strdup = true) (hzero : config.errno = 0) (k : Nat) (config' : ParsedCfg) :
    Accepts io k config (fgetsLines 127 127 [] (line ++ nl)) config' ↔
      ∃ d, keywordOf line = some d ∧ ¬ d.Refused config ∧
        ¬ d.Beyond ((sscanfArg line).getD (io k).stack) ∧
        config' = d.set config ((sscanfArg line).getD (io k).stack) := by
  obtain ⟨tail, htail, he⟩ := fits_parsed (ne_nil_of_first hdrop) hfit hno hnl io k config
  have hseen : cString (line ++ tail) = line ++ tail := by
    rw [cString, List.takeWhile_eq_self_iff]
    intro x hx
    rcases List.mem_append.mp hx with hx | hx
    · have hx0 : x ≠ 0 := fun h => hnul (h ▸ hx)
      simpa using hx0
    · exact blanks_not_nul (blanks_newline htail) x hx
  have hdrop' : (line ++ tail).dropWhile isspace = c :: (rest ++ tail) := by
    obtain ⟨indent, rfl, hindent, hspace⟩ := split_at_first hdrop
    rw [List.append_assoc]
    exact dropWhile_to_first hindent hspace
  rw [Accepts, he, hseen, parse_directive hdrop' hhash (hdup k), keyword_of_newline htail,
    sscanf_arg_newline htail]
  generalize (sscanfArg line).getD (io k).stack = arg
  cases keywordOf line with
  | none => simp [EINVAL]
  | some d =>
    by_cases href : d.Refused config
    · simp [href, EALREADY]
    by_cases hbeyond : d.Beyond arg
    · have hset := read_arg_beyond hbeyond config
      simp only [if_neg href, Prod.mk.injEq, and_true, Option.some.injEq, exists_eq_left', hbeyond,
        not_true_eq_false, false_and, and_false, iff_false, not_and]
      rintro rfl h
      exact absurd (hset.symm.trans h) (by decide)
    · have hset := (set_errno d config arg).trans hzero
      simp only [read_arg_eq hbeyond, href, if_false, Prod.mk.injEq, and_true, Option.some.injEq,
        exists_eq_left', hbeyond, not_false_eq_true, true_and]
      constructor
      · exact fun h => h.1.symm
      · rintro rfl
        exact ⟨rfl, hset⟩

/-! ## Which lines are read as the grammar reads them -/

theorem not_indented (hdrop : line.dropWhile isspace = c :: rest) (h : ¬ Indented line) :
    line = c :: rest := by
  cases line with
  | nil => cases hdrop
  | cons x line =>
    have hx : ¬ isspace x = true := fun hs => h ⟨x, rfl, hs⟩
    rw [← hdrop, List.dropWhile_cons_of_neg hx]

theorem says_keyword (hdrop : line.dropWhile isspace = c :: rest) (h : Says line (some (d, arg))) :
    keywordOf (c :: rest) = some d := by
  cases h with
  | directive hindent hword _ _ _ _ =>
    obtain ⟨c', word', rfl, hspace, _⟩ := word_head hword
    rw [← hdrop, List.cons_append, dropWhile_to_first hindent hspace]
    exact keyword_of_word hword _

/-- What a line that is neither blank nor a comment means, is a directive of its first word. -/
theorem directive_means (hdrop : line.dropWhile isspace = c :: rest) (hhash : c ≠ 35) :
    lineMeans config line = some config' ↔ ∃ d arg, Says line (some (d, arg)) ∧
      keywordOf (c :: rest) = some d ∧ ¬ d.Refused config ∧ config' = d.set config arg := by
  rw [line_means_iff]
  constructor
  · intro hmeant
    rcases hmeant with ⟨hs, _⟩ | ⟨d, arg, hs, hfree, hset⟩
    · cases hs with
      | blank h => exact nomatch (List.dropWhile_eq_nil_iff.mpr h).symm.trans hdrop
      | comment hindent =>
        have hfirst := hdrop.symm.trans (dropWhile_to_first hindent rfl)
        exact absurd (List.cons.inj hfirst).1 hhash
    · exact ⟨d, arg, hs, says_keyword hdrop hs, hfree, hset⟩
  · intro hmeant
    obtain ⟨d, arg, hs, _, hfree, hset⟩ := hmeant
    exact .inr ⟨d, arg, hs, hfree, hset⟩

theorem line_parsed (hreg : RegularLine config line) (hno : 10 ∉ line) (hnl : nl = [] ∨ nl = [10])
    (hdup : ∀ k, (io k).strdup = true) (hzero : config.errno = 0) (k : Nat) (config' : ParsedCfg) :
    Accepts io k config (fgetsLines 127 127 [] (line ++ nl)) config' ↔
      lineMeans config line = some config' := by
  cases hdrop : line.dropWhile isspace with
  | nil =>
    have hblank : Blanks line := List.dropWhile_eq_nil_iff.mp hdrop
    have hall : Blanks (line ++ nl) := by
      intro x hx
      rcases List.mem_append.mp hx with hx | hx
      · exact hblank x hx
      · exact blanks_newline hnl x hx
    have hmeans := (line_means_iff config line config).mpr (.inl ⟨.blank hblank, rfl⟩)
    rw [accepts_blanks (fgets_blank blanks_nil hall) hzero, hmeans, Option.some.injEq, eq_comm]
  | cons c rest =>
    replace hreg := hreg c (by rw [hdrop]; rfl)
    rw [hdrop] at hreg
    split at hreg
    · rename_i hc
      subst hc
      obtain ⟨indent, hline, hindent, _⟩ := split_at_first hdrop
      have hmeans := (line_means_iff config line config).mpr (.inl ⟨hline ▸ .comment hindent, rfl⟩)
      rw [Accepts, comment_parsed hdrop hreg hno hnl, hmeans, Prod.mk.injEq, Option.some.injEq]
      constructor
      · exact fun h => h.1.1
      · rintro rfl
        exact ⟨⟨rfl, rfl⟩, hzero⟩
    rename_i hhash
    rcases hreg with ⟨hnul, href⟩ | ⟨hfit, hnul, hform⟩
    · obtain ⟨indent, hline, hindent, hspace⟩ := split_at_first hdrop
      have hrefused : (parseLines io k config
          (fgetsLines 127 127 [] (indent ++ (c :: rest ++ nl)))).2 ≠ 0 :=
        refused_line blanks_nil hindent hspace hnul hhash hnl href hdup k
      rw [directive_means hdrop hhash, hline, List.append_assoc]
      constructor
      · intro he
        rw [he.1] at hrefused
        exact absurd rfl hrefused
      · intro hmeant
        obtain ⟨d, _, _, hkey, hfree, _⟩ := hmeant
        exact absurd (href d hkey) hfree
    · rw [plain_parsed hdrop hhash hfit hnul hno hnl hdup hzero k, directive_means hdrop hhash]
      by_cases hind : Indented line
      · -- The keyword is not seen behind the blanks, and has no argument.
        rw [keyword_of_indented hind]
        constructor
        · intro htaken
          obtain ⟨d, hd, _⟩ := htaken
          cases hd
        · intro hmeant
          obtain ⟨d, arg, hs, _⟩ := hmeant
          exact absurd hind (hform.mp ⟨_, hs⟩).1
      by_cases hcomplete : Complete line
      · obtain ⟨⟨d, arg⟩, hs⟩ := hcomplete
        obtain ⟨hkey, harg⟩ := says_parsed hs hind hfit
        have hlong : ¬ d.Beyond arg := (hform.mp ⟨_, hs⟩).2 d hkey arg harg
        rw [harg, ← not_indented hdrop hind, hkey]
        constructor
        · intro htaken
          obtain ⟨d', hd, hfree, _, hset⟩ := htaken
          cases hd
          exact ⟨d, arg, hs, rfl, hfree, hset⟩
        · intro hmeant
          obtain ⟨d', arg', hs', hd, hfree, hset⟩ := hmeant
          cases hd
          have hsame := (says_parsed hs' hind hfit).2.symm.trans harg
          cases hsame
          exact ⟨d, rfl, hfree, hlong, hset⟩
      · -- The number shows in `errno` at the end of the file.
        have hread : ¬ Readable line := fun h => hcomplete (hform.mpr ⟨hind, h⟩)
        simp only [Readable, not_forall, not_not] at hread
        obtain ⟨d, hkey, arg, harg, hbeyond⟩ := hread
        constructor
        · intro htaken
          obtain ⟨d', hd, _, hlong, _⟩ := htaken
          cases hkey.symm.trans hd
          rw [Option.mem_def.mp harg] at hlong
          exact absurd hbeyond hlong
        · intro hmeant
          obtain ⟨d', arg', hs, _⟩ := hmeant
          exact absurd ⟨_, hs⟩ hcomplete

/-- For a line that fits and has no NUL this is the condition, unless the garbage that it may
be given is a number beyond a `long`. -/
theorem line_parsed_iff (hfit : line.length ≤ 127) (hnul : 0 ∉ line) (hno : 10 ∉ line)
    (hnl : nl = [] ∨ nl = [10]) (hdup : ∀ k, (io k).strdup = true)
    (hstack : ∀ k, beyondLong (io k).stack = false) (hzero : config.errno = 0) (k : Nat) :
    (∀ config', Accepts io k config (fgetsLines 127 127 [] (line ++ nl)) config' ↔
      lineMeans config line = some config') ↔ RegularLine config line := by
  refine ⟨fun h => ?_, fun h => line_parsed h hno hnl hdup hzero k⟩
  intro c hc
  obtain ⟨rest, hdrop⟩ := List.head?_eq_some_iff.mp hc
  rw [hdrop]
  split
  · exact hfit
  rename_i hhash
  have hcode := plain_parsed hdrop hhash hfit hnul hno hnl hdup hzero k
  by_cases href : ∀ d ∈ keywordOf (c :: rest), d.Refused config
  · refine .inl ⟨?_, href⟩
    intro hzero
    subst hzero
    obtain ⟨indent, hline, _⟩ := split_at_first hdrop
    exact hnul (hline ▸ List.mem_append_right _ List.mem_cons_self)
  · refine .inr ⟨hfit, hnul, ?_⟩
    simp only [Option.mem_def, not_forall] at href
    obtain ⟨d, hkey, hfree⟩ := href
    constructor
    · intro hcomplete
      obtain ⟨⟨d', arg⟩, hs⟩ := hcomplete
      obtain rfl : d = d' := Option.some.inj (hkey.symm.trans (says_keyword hdrop hs))
      have hmeans := (directive_means hdrop hhash).mpr ⟨d, arg, hs, hkey, hfree, rfl⟩
      obtain ⟨d', hd, _, hlong, _⟩ := (hcode _).mp ((h _).mpr hmeans)
      have hind : ¬ Indented line := by
        intro hind
        rw [keyword_of_indented hind] at hd
        cases hd
      refine ⟨hind, fun d'' hd'' arg' harg' => ?_⟩
      cases hd.symm.trans hd''
      rwa [Option.mem_def.mp harg'] at hlong
    · rintro ⟨hind, hread⟩
      have hline := not_indented hdrop hind
      have hkey' : keywordOf line = some d := hline ▸ hkey
      have hlong : ¬ d.Beyond ((sscanfArg line).getD (io k).stack) := by
        cases harg : sscanfArg line with
        | some arg => exact hread d hkey' arg harg
        | none =>
          intro hbeyond
          rw [Option.getD_none] at hbeyond
          cases d with
          | batchRecords | maxBuckets | workers => exact nomatch (hstack k).symm.trans hbeyond
          | logtype | mdtdevice | clreader => exact hbeyond
      have haccepts := (hcode _).mpr ⟨d, hkey', hfree, hlong, rfl⟩
      obtain ⟨d', arg, hs, _⟩ := (directive_means hdrop hhash).mp ((h _).mp haccepts)
      exact ⟨_, hs⟩

/-! ## Files -/

theorem lines_cases (content : List UInt8) :
    (10 ∉ content ∧ content.splitOn 10 = [content]) ∨
      ∃ line rest, content = line ++ 10 :: rest ∧ 10 ∉ line ∧
        content.splitOn 10 = line :: rest.splitOn 10 := by
  by_cases h : 10 ∈ content
  · obtain ⟨line, rest, rfl, hno⟩ := List.eq_append_cons_of_mem h
    exact .inr ⟨line, rest, rfl, hno, List.splitOn_append_cons_self_of_not_mem hno rest⟩
  · exact .inl ⟨h, List.splitOn_eq_singleton h⟩

/-- The first line of a file, and the rest. -/
theorem file_cases (hs : content.splitOn 10 = line :: lines) :
    10 ∉ line ∧ ((lines = [] ∧ content = line) ∨
      ∃ rest, rest.splitOn 10 = lines ∧ content = line ++ 10 :: rest) := by
  rcases lines_cases content with ⟨hno, hone⟩ | ⟨line', rest, rfl, hno, hmore⟩
  · cases hone.symm.trans hs
    exact ⟨hno, .inl ⟨rfl, rfl⟩⟩
  · cases hmore.symm.trans hs
    exact ⟨hno, .inr ⟨rest, rfl, rfl⟩⟩

/-- A regular line takes the parser where it takes the grammar. -/
theorem parse_after_line (hreg : RegularLine config line) (hno : 10 ∉ line)
    (hdup : ∀ k, (io k).strdup = true) (hzero : config.errno = 0) (rest : List UInt8) (k : Nat) :
    ∃ k', ∀ config', Accepts io k config (fgetsLines 127 127 [] (line ++ 10 :: rest)) config' ↔
      ∃ mid, lineMeans config line = some mid ∧
        Accepts io k' mid (fgetsLines 127 127 [] rest) config' := by
  refine ⟨k + (fgetsLines 127 127 [] (line ++ [10])).length, fun config' => ?_⟩
  rw [fgets_split hno, accepts_append hdup]
  have hline := line_parsed hreg hno (.inr rfl) hdup hzero k
  simp only [hline]

theorem file_parsed (hs : content.splitOn 10 = lines) (hreg : RegularLines config lines)
    (hdup : ∀ k, (io k).strdup = true) (hzero : config.errno = 0) (k : Nat) (config' : ParsedCfg) :
    Accepts io k config (fgetsLines 127 127 [] content) config' ↔
      FileSays config lines config' := by
  induction lines generalizing content config k with
  | nil => exact absurd hs (List.splitOn_ne_nil 10 content)
  | cons line lines ih =>
    obtain ⟨hline, hrest⟩ := hreg
    obtain ⟨hno, hcases⟩ := file_cases hs
    rw [file_says_cons]
    rcases hcases with ⟨rfl, rfl⟩ | ⟨rest, hsplit, rfl⟩
    · have hone := line_parsed hline hno (.inl rfl) hdup hzero k config'
      rw [List.append_nil] at hone
      simp [hone, file_says_nil, eq_comm]
    · obtain ⟨k', hparse⟩ := parse_after_line hline hno hdup hzero rest k
      rw [hparse]
      refine exists_congr fun mid => and_congr_right fun hmid => ?_
      exact ih hsplit (hrest mid hmid) ((line_means_errno hmid).trans hzero) k'

/-- Where both take a line, it is regular. -/
theorem regular_of_both (hfit : line.length ≤ 127) (hnul : 0 ∉ line) (hno : 10 ∉ line)
    (hnl : nl = [] ∨ nl = [10]) (hdup : ∀ k, (io k).strdup = true) (hzero : config.errno = 0)
    (hmeans : lineMeans config line = some mid)
    (hparse : Accepts io k config (fgetsLines 127 127 [] (line ++ nl)) config') :
    RegularLine config line := by
  intro c hc
  obtain ⟨rest, hdrop⟩ := List.head?_eq_some_iff.mp hc
  split
  · exact hfit
  rename_i hhash
  obtain ⟨d, hkey, _, hlong, _⟩ :=
    (plain_parsed hdrop hhash hfit hnul hno hnl hdup hzero k _).mp hparse
  obtain ⟨_, _, hs, _⟩ := (directive_means hdrop hhash).mp hmeans
  refine .inr ⟨hfit, hnul, iff_of_true ⟨_, hs⟩ ⟨?_, ?_⟩⟩
  · intro hind
    rw [keyword_of_indented hind] at hkey
    cases hkey
  · intro d' hd arg harg
    cases hkey.symm.trans hd
    rwa [Option.mem_def.mp harg] at hlong

/-- Where both take a file whose lines fit and have no NUL, the lines are regular. -/
theorem file_regular_of_both (hs : content.splitOn 10 = lines)
    (hplain : ∀ line ∈ lines, line.length ≤ 127 ∧ 0 ∉ line) (hdup : ∀ k, (io k).strdup = true)
    (hzero : config.errno = 0) (hsaid : FileSays config lines last) (k : Nat)
    (hparse : Accepts io k config (fgetsLines 127 127 [] content) config') :
    RegularLines config lines := by
  induction lines generalizing content config k with
  | nil => exact absurd hs (List.splitOn_ne_nil 10 content)
  | cons line lines ih =>
    obtain ⟨mid, hmid, hrest⟩ := file_says_cons.mp hsaid
    obtain ⟨hno, hcases⟩ := file_cases hs
    obtain ⟨hfit, hnul⟩ := hplain line List.mem_cons_self
    rcases hcases with ⟨rfl, rfl⟩ | ⟨rest, hsplit, rfl⟩
    · rw [← List.append_nil content] at hparse
      exact ⟨regular_of_both hfit hnul hno (.inl rfl) hdup hzero hmid hparse, fun _ _ => trivial⟩
    · rw [fgets_split hno, accepts_append hdup] at hparse
      obtain ⟨mid', hfirst, hparse⟩ := hparse
      have hline := regular_of_both hfit hnul hno (.inr rfl) hdup hzero hmid hfirst
      have hmid' := (line_parsed hline hno (.inr rfl) hdup hzero k mid').mp hfirst
      cases hmid.symm.trans hmid'
      refine ⟨hline, fun config' hc => ?_⟩
      cases hmid.symm.trans hc
      exact ih hsplit (fun l hl => hplain l (List.mem_cons_of_mem _ hl)) hfirst.2 hrest _ hparse

theorem blank_file (hs : content.splitOn 10 = lines) (h : ∀ l ∈ lines, Blanks l) :
    Blanks content := by
  induction lines generalizing content with
  | nil => exact absurd hs (List.splitOn_ne_nil 10 content)
  | cons line lines ih =>
    obtain ⟨_, hcases⟩ := file_cases hs
    have hline := h line List.mem_cons_self
    rcases hcases with ⟨_, rfl⟩ | ⟨rest, hsplit, rfl⟩
    · exact hline
    · have hrest := ih hsplit (fun l hl => h l (List.mem_cons_of_mem _ hl))
      intro x hx
      rcases List.mem_append.mp hx with hx | hx
      · exact hline x hx
      rcases List.mem_cons.mp hx with rfl | hx
      · rfl
      · exact hrest x hx

theorem blank_lines_say (h : ∀ l ∈ lines, Blanks l) :
    FileSays config lines config' ↔ config' = config := by
  induction lines with
  | nil => exact file_says_nil
  | cons line lines ih =>
    have hline := (line_means_iff config line config).mpr
      (.inl ⟨.blank (h line List.mem_cons_self), rfl⟩)
    rw [file_says_cons, hline]
    simpa using ih (fun l hl => h l (List.mem_cons_of_mem _ hl))

/-- Behind regular lines, the next one breaks the file if nothing comes to hide it. -/
theorem file_parsed_iff (hs : content.splitOn 10 = pre ++ line :: post)
    (hpre : RegularLines config pre)
    (hsaid : FileSays config pre mid) (hfit : line.length ≤ 127) (hnul : 0 ∉ line)
    (hpost : ∀ l ∈ post, Blanks l) (hdup : ∀ k, (io k).strdup = true)
    (hstack : ∀ k, beyondLong (io k).stack = false) (hzero : config.errno = 0) (k : Nat) :
    (∀ config', Accepts io k config (fgetsLines 127 127 [] content) config' ↔
      FileSays config (pre ++ line :: post) config') ↔ RegularLine mid line := by
  induction pre generalizing content config k with
  | nil =>
    rw [file_says_nil.mp hsaid]
    obtain ⟨hno, hcases⟩ := file_cases hs
    have hmeans : ∀ config', FileSays config (line :: post) config' ↔
        lineMeans config line = some config' := by
      intro config'
      rw [file_says_cons]
      simp [blank_lines_say hpost, eq_comm]
    simp only [List.nil_append, hmeans]
    rcases hcases with ⟨rfl, rfl⟩ | ⟨rest, hsplit, rfl⟩
    · have hone := line_parsed_iff hfit hnul hno (.inl rfl) hdup hstack hzero k
      rwa [List.append_nil] at hone
    · have hblank := blank_file hsplit hpost
      have hone := line_parsed_iff hfit hnul hno (.inr rfl) hdup hstack hzero k
      rw [← hone]
      refine forall_congr' fun config' => ?_
      rw [fgets_split hno, accepts_append hdup]
      have hrest : ∀ k' mid, Accepts io k config (fgetsLines 127 127 [] (line ++ [10])) mid →
          (Accepts io k' mid (fgetsLines 127 127 [] rest) config' ↔ config' = mid) :=
        fun k' mid h => accepts_blanks (fgets_blank blanks_nil hblank) h.2 k'
      have hsame : (∃ mid, Accepts io k config (fgetsLines 127 127 [] (line ++ [10])) mid ∧
          Accepts io (k + (fgetsLines 127 127 [] (line ++ [10])).length) mid
            (fgetsLines 127 127 [] rest) config') ↔
          Accepts io k config (fgetsLines 127 127 [] (line ++ [10])) config' := by
        constructor
        · rintro ⟨mid, h, hend⟩
          rwa [(hrest _ mid h).mp hend]
        · exact fun h => ⟨config', h, (hrest _ config' h).mpr rfl⟩
      rw [hsame]
  | cons l pre ih =>
    obtain ⟨hline, hrest⟩ := hpre
    obtain ⟨mid', hmid', hsaid'⟩ := file_says_cons.mp hsaid
    obtain ⟨hno, hcases⟩ := file_cases hs
    rcases hcases with ⟨hnil, _⟩ | ⟨rest, hsplit, rfl⟩
    · simp at hnil
    obtain ⟨k', hparse⟩ := parse_after_line hline hno hdup hzero rest k
    rw [← ih hsplit (hrest mid' hmid') hsaid' ((line_means_errno hmid').trans hzero) k']
    refine forall_congr' fun config' => ?_
    rw [hparse, List.cons_append, file_says_cons, hmid']
    simp

end

/-- The parser accepts a file exactly as the grammar does, with the configuration that its
directives make, if the lines up to the first that is refused are regular. They have to be
in a file that the grammar accepts and whose lines fit the buffer and have no NUL; and
behind regular lines such a line has to be regular, where nothing comes to hide it. -/
theorem regular_file_parsed
    (hopen : fopen (config.ccfFile.getD (bytes "/etc/lcap.cfg")) = some content)
    (hdup : ∀ k, (io k).strdup = true) (hzero : config.errno = 0) :
    (RegularLines config (content.splitOn 10) → Faithful fopen io config content) ∧
      ((∀ line ∈ content.splitOn 10, line.length ≤ 127 ∧ 0 ∉ line) →
        (∃ config', FileSays config (content.splitOn 10) config') →
        (Faithful fopen io config content ↔ RegularLines config (content.splitOn 10))) ∧
      ((∀ k, beyondLong (io k).stack = false) →
        ∀ pre line post mid, content.splitOn 10 = pre ++ line :: post → RegularLines config pre →
          FileSays config pre mid → line.length ≤ 127 → 0 ∉ line → (∀ l ∈ post, Blanks l) →
          (Faithful fopen io config content ↔ RegularLine mid line)) := by
  have hfile : ∀ config', lcapParseConfigFile fopen io config = (config', 0) ↔
      Accepts io 0 config (fgetsLines 127 127 [] content) config' := by
    intro config'
    simp only [lcapParseConfigFile, hopen, Accepts]
    obtain ⟨end_, rc⟩ := parseLines io 0 config (fgetsLines 127 127 [] content)
    by_cases hrc : rc = 0
    · simp only [hrc, ne_eq, not_true_eq_false, if_false, Prod.mk.injEq, and_true, Int.neg_eq_zero,
        Int.natCast_eq_zero]
      exact and_congr_right fun hsame => by rw [hsame]
    · simp [hrc]
  have henough : RegularLines config (content.splitOn 10) → Faithful fopen io config content := by
    intro hreg config'
    rw [hfile]
    exact file_parsed rfl hreg hdup hzero 0 config'
  refine ⟨henough, ?_, ?_⟩
  · intro hplain hsaid
    obtain ⟨last, hsaid⟩ := hsaid
    refine ⟨fun h => ?_, henough⟩
    exact file_regular_of_both rfl hplain hdup hzero hsaid 0 ((hfile last).mp ((h last).mpr hsaid))
  · intro hstack pre line post mid hs hpre hsaid hfit hnul hpost
    rw [← file_parsed_iff hs hpre hsaid hfit hnul hpost hdup hstack hzero 0, Faithful]
    simp only [hfile, hs]

namespace Sample

def defaults : ParsedCfg := configSetDefaults {}

def file (content : List UInt8) : List UInt8 → Option (List UInt8) := fun _ => some content

/-- The memory of `cfg_get_arg` contains a string. -/
def lineIo : Nat → LineIo := fun _ => { stack := bytes "cl9" }

def commented : List UInt8 := bytes "# a comment\nlogtype stderr\n"

def indented : List UInt8 := bytes "  logtype stderr\n"

def withoutArgument : List UInt8 := bytes "clreader\n"

def longComment : List UInt8 := 35 :: List.replicate 200 97

def hugeBatch : List UInt8 := bytes "batch_records 99999999999999999999\n"

end Sample

theorem regular_file_parsed_commented :
    Faithful (Sample.file Sample.commented) Sample.lineIo Sample.defaults Sample.commented :=
  (regular_file_parsed (show Sample.file Sample.commented _ = some Sample.commented from rfl)
    (show ∀ k, (Sample.lineIo k).strdup = true from fun _ => rfl) rfl).1 (by decide +kernel)

/-- An indented directive, a long comment and a number beyond a `long` are refused, and a
directive without its argument is given what the buffer contains. -/
theorem grammar_not_followed :
    (¬ Faithful (Sample.file Sample.indented) Sample.lineIo Sample.defaults Sample.indented ∧
      (lcapParseConfigFile (Sample.file Sample.indented) Sample.lineIo Sample.defaults).2 =
        -EINVAL) ∧
    (¬ Faithful (Sample.file Sample.longComment) Sample.lineIo Sample.defaults Sample.longComment ∧
      (lcapParseConfigFile (Sample.file Sample.longComment) Sample.lineIo
        Sample.defaults).2 = -EINVAL) ∧
    (¬ Faithful (Sample.file Sample.hugeBatch) Sample.lineIo Sample.defaults Sample.hugeBatch ∧
      (lcapParseConfigFile (Sample.file Sample.hugeBatch) Sample.lineIo Sample.defaults).2 =
        -ERANGE) ∧
    ¬ Faithful (Sample.file Sample.withoutArgument) Sample.lineIo Sample.defaults
        Sample.withoutArgument ∧
      lcapParseConfigFile (Sample.file Sample.withoutArgument) Sample.lineIo Sample.defaults =
        ({ Sample.defaults with ccfClreader := some (bytes "cl9") }, 0) := by
  have hindented : (lcapParseConfigFile (Sample.file Sample.indented) Sample.lineIo
      Sample.defaults).2 = -EINVAL := by decide +kernel
  have hlong : (lcapParseConfigFile (Sample.file Sample.longComment) Sample.lineIo
      Sample.defaults).2 = -EINVAL := by decide +kernel
  have hhuge : (lcapParseConfigFile (Sample.file Sample.hugeBatch) Sample.lineIo
      Sample.defaults).2 = -ERANGE := by decide +kernel
  have hgiven : lcapParseConfigFile (Sample.file Sample.withoutArgument) Sample.lineIo
      Sample.defaults = ({ Sample.defaults with ccfClreader := some (bytes "cl9") }, 0) := by
    decide +kernel
  refine ⟨⟨fun h => ?_, hindented⟩, ⟨fun h => ?_, hlong⟩, ⟨fun h => ?_, hhuge⟩, fun h => ?_, hgiven⟩
  · have hsaid := (file_says_iff Sample.defaults (Sample.indented.splitOn 10)
      { Sample.defaults with ccfLoggername := some (bytes "stderr") }).mpr (by decide +kernel)
    rw [(h _).mpr hsaid] at hindented
    cases hindented
  · have hsaid := (file_says_iff Sample.defaults (Sample.longComment.splitOn 10)
      Sample.defaults).mpr (by decide +kernel)
    rw [(h _).mpr hsaid] at hlong
    cases hlong
  · have hsaid := (file_says_iff Sample.defaults (Sample.hugeBatch.splitOn 10)
      { Sample.defaults with ccfRecBatchCount := -1 }).mpr (by decide +kernel)
    rw [(h _).mpr hsaid] at hhuge
    cases hhuge
  · have hsaid := (file_says_iff _ _ _).mp ((h _).mp hgiven)
    have hnone : (Sample.withoutArgument.splitOn 10).foldlM lineMeans Sample.defaults = none := by
      decide +kernel
    cases hnone.symm.trans hsaid

end Lcap.Proofs
