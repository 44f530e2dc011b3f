import Lcap.Grammar
import Lcap.Systems.Words

namespace Lcap.Proofs
open Config Systems

variable {d d' : Directive} {line word gap arg tail : List UInt8}

/-! ## Keywords -/

theorem tolower_of_isspace (h : isspace c = true) : tolower c = c := by
  have hnot : ¬ (65 ≤ c ∧ c ≤ 90) := by
    simp only [isspace, Bool.or_eq_true, beq_iff_eq, Bool.and_eq_true, decide_eq_true_eq] at h
    simp only [UInt8.le_iff_toNat_le] at h ⊢
    rcases h with rfl | h
    · decide
    · have : (65 : UInt8).toNat = 65 := rfl
      have : (13 : UInt8).toNat = 13 := rfl
      omega
  unfold tolower
  rw [if_neg (by simpa using hnot)]

/-- No byte of a keyword is a blank, the start of a comment or a NUL, in either case. -/
theorem keyword_letter (d : Directive) (h : tolower c ∈ d.keyword) :
    isspace c = false ∧ c ≠ 35 ∧ c ≠ 0 := by
  have hletter : ∀ d : Directive, ∀ k ∈ d.keyword, isspace k = false ∧ k ≠ 35 ∧ k ≠ 0 := by
    intro d
    cases d <;> decide +kernel
  obtain ⟨hspace, hhash, hnul⟩ := hletter d _ h
  refine ⟨?_, ?_, ?_⟩
  · by_contra hs
    rw [tolower_of_isspace (by simpa using hs)] at hspace
    exact hs hspace
  · intro hc
    subst hc
    exact hhash rfl
  · intro hc
    subst hc
    exact hnul rfl

theorem keyword_lower (d : Directive) : d.keyword.map tolower = d.keyword := by
  cases d <;> decide

theorem keyword_ne_nil (d : Directive) : d.keyword ≠ [] := by
  cases d <;> decide

theorem startswith_iff (s n : List UInt8) :
    startswith s n = true ↔ n.map tolower <+: s.map tolower := by
  induction n generalizing s with
  | nil => cases s <;> simp [startswith]
  | cons k n ih =>
    cases s with
    | nil => simp [startswith]
    | cons c s =>
      simp only [startswith, Bool.and_eq_true, beq_iff_eq, ih, List.map_cons, List.cons_prefix_cons]
      exact and_congr_left' eq_comm

/-- No keyword begins another. -/
theorem keyword_unique (h : d.keyword <+: s) (h' : d'.keyword <+: s) : d = d' := by
  have hapart : ∀ d d' : Directive, d.keyword <+: d'.keyword → d = d' := by
    intro d d'
    cases d <;> cases d' <;> decide
  rcases List.prefix_or_prefix_of_prefix h h' with hp | hp
  · exact hapart d d' hp
  · exact (hapart d' d hp).symm

theorem keyword_of_iff : keywordOf line = some d ↔ d.keyword <+: line.map tolower := by
  have hstart : ∀ d : Directive, startswith line d.keyword = true ↔
      d.keyword <+: line.map tolower := by
    intro d
    rw [startswith_iff, keyword_lower]
  constructor
  · intro h
    exact (hstart d).mp (List.find?_some (p := fun d : Directive => startswith line d.keyword) h)
  · intro h
    have hmem : d ∈ Directive.all := by cases d <;> decide
    cases hk : keywordOf line with
    | none => exact absurd ((hstart d).mpr h) (List.find?_eq_none.mp hk d hmem)
    | some d' =>
      have hd' := List.find?_some (p := fun d : Directive => startswith line d.keyword) hk
      rw [keyword_unique ((hstart d').mp hd') h]

theorem keyword_of_word (hword : word.map tolower = d.keyword) (rest : List UInt8) :
    keywordOf (word ++ rest) = some d := by
  rw [keyword_of_iff, List.map_append, hword]
  exact List.prefix_append _ _

/-- What begins with a keyword is the keyword in some case and the rest. -/
theorem word_of_keyword (h : keywordOf line = some d) :
    ∃ word, line = word ++ line.drop d.keyword.length ∧ word.map tolower = d.keyword := by
  refine ⟨line.take d.keyword.length, (List.take_append_drop _ _).symm, ?_⟩
  have hp := keyword_of_iff.mp h
  rw [List.map_take]
  exact (List.prefix_iff_eq_take.mp hp).symm

theorem word_head (hword : word.map tolower = d.keyword) :
    ∃ c rest, word = c :: rest ∧ isspace c = false ∧ c ≠ 35 ∧ c ≠ 0 := by
  cases word with
  | nil => exact absurd hword.symm (keyword_ne_nil d)
  | cons c rest =>
    refine ⟨c, rest, rfl, keyword_letter d ?_⟩
    rw [← hword]
    exact List.mem_cons_self

theorem keyword_length (hword : word.map tolower = d.keyword) : d.keyword.length = word.length := by
  rw [← hword, List.length_map]

/-! ## The program reads the grammar -/

theorem word_ends (h : Word arg) (s : List UInt8) : ∀ c ∈ (arg ++ s).head?, isspace c = false := by
  obtain ⟨hne, hall⟩ := h
  cases arg with
  | nil => exact absurd rfl hne
  | cons c rest =>
    intro c' hc'
    cases hc'
    exact hall c List.mem_cons_self

theorem word_of_text (harg : Word arg) (htail : ∀ c ∈ tail.head?, isspace c = true) :
    (arg ++ tail).takeWhile (!isspace ·) = arg := by
  apply takeWhile_word
  · intro c hc
    rw [harg.2 c hc]
    rfl
  · intro c hc
    rw [htail c hc]
    rfl

theorem argument_iff (rest : List UInt8) :
    argument rest = some arg ↔ ∃ gap tail, rest = gap ++ (arg ++ tail) ∧ Blanks gap ∧ gap ≠ [] ∧
      Word arg ∧ ∀ c ∈ tail.head?, isspace c = true := by
  constructor
  · intro h
    unfold argument at h
    split at h
    · cases h
    rename_i c rest
    split at h
    case isFalse => cases h
    rename_i hc
    cases hdrop : rest.dropWhile isspace with
    | nil =>
      simp only [hdrop] at h
      cases h
    | cons c' text' =>
    simp only [hdrop] at h
    obtain ⟨gap, rfl, hgap, hc'⟩ := split_at_first hdrop
    have harg := Option.some.inj h
    refine ⟨c :: gap, (c' :: text').dropWhile (!isspace ·), ?_, ?_,
      List.cons_ne_nil _ _, ⟨?_, ?_⟩, ?_⟩
    · rw [← harg, List.takeWhile_append_dropWhile, List.cons_append]
    · intro x hx
      rcases List.mem_cons.mp hx with rfl | hx
      · exact hc
      · exact hgap x hx
    · rw [← harg, List.takeWhile_cons_of_pos (by simp [hc'])]
      exact List.cons_ne_nil _ _
    · intro x hx
      have hx' := List.mem_takeWhile_imp (harg ▸ hx)
      simpa using hx'
    · intro x hx
      have hhead := List.head?_dropWhile_not (!isspace ·) (c' :: text')
      rw [hx] at hhead
      simpa using hhead
  · intro hparts
    obtain ⟨gap, tail, rfl, hgap, hne, harg, htail⟩ := hparts
    obtain ⟨c, gap, rfl⟩ := List.exists_cons_of_ne_nil hne
    have hc := hgap c List.mem_cons_self
    have hgap' : ∀ x ∈ gap, isspace x = true := fun x hx => hgap x (List.mem_cons_of_mem c hx)
    have hdrop := dropWhile_word hgap' (word_ends harg tail)
    rw [List.cons_append]
    simp only [argument, hc, if_true, hdrop]
    split
    · rename_i hnil
      exact absurd (List.append_eq_nil_iff.mp hnil).1 harg.1
    · rw [word_of_text harg htail]

theorem statement_iff (line : List UInt8) (s : Option (Directive × List UInt8)) :
    statement line = some s ↔ Says line s := by
  constructor
  · intro h
    unfold statement at h
    split at h
    · rename_i hnil
      cases h
      exact .blank (List.dropWhile_eq_nil_iff.mp hnil)
    rename_i c rest hdrop
    obtain ⟨indent, rfl, hindent, _⟩ := split_at_first hdrop
    split at h
    · rename_i hc
      cases h
      rw [hc]
      exact .comment hindent
    split at h
    · cases h
    rename_i d hd
    obtain ⟨arg, harg, rfl⟩ := Option.map_eq_some_iff.mp h
    obtain ⟨word, hline, hword⟩ := word_of_keyword hd
    obtain ⟨gap, tail, hrest, hgap, hne, hw, htail⟩ := (argument_iff _).mp harg
    rw [hline, hrest]
    exact .directive hindent hword hgap hne hw htail
  · intro h
    cases h with
    | blank h =>
      have hnil := List.dropWhile_eq_nil_iff.mpr h
      simp only [statement, hnil]
    | @comment indent rest hindent =>
      have hdrop : (indent ++ 35 :: rest).dropWhile isspace = 35 :: rest :=
        dropWhile_to_first hindent rfl
      simp only [statement, hdrop, if_true]
    | @directive indent gap arg word tail d hindent hword hgap hne harg htail =>
      obtain ⟨c, rest, rfl, hspace, hhash, _⟩ := word_head hword
      have hdrop : (indent ++ (c :: rest ++ (gap ++ (arg ++ tail)))).dropWhile isspace =
          c :: rest ++ (gap ++ (arg ++ tail)) :=
        dropWhile_to_first hindent hspace
      have hkey := keyword_of_word hword (gap ++ (arg ++ tail))
      have harg' := (argument_iff _).mpr ⟨gap, tail, rfl, hgap, hne, harg, htail⟩
      have hlen : ((c :: rest) ++ (gap ++ (arg ++ tail))).drop d.keyword.length = gap ++
          (arg ++ tail) :=
        List.drop_left' (keyword_length hword).symm
      rw [List.cons_append] at hdrop hkey hlen ⊢
      simp only [statement, hdrop, if_neg hhash, hkey, hlen, harg', Option.map_some]

theorem line_means_iff (config : ParsedCfg) (line : List UInt8) (config' : ParsedCfg) :
    lineMeans config line = some config' ↔
      (Says line none ∧ config' = config) ∨
        ∃ d arg, Says line (some (d, arg)) ∧ ¬ d.Refused config ∧ config' = d.set config arg := by
  constructor
  · intro h
    unfold lineMeans at h
    split at h
    · cases h
    · rename_i hs
      cases h
      exact .inl ⟨(statement_iff line _).mp hs, rfl⟩
    · rename_i d arg hs
      split at h
      · cases h
      · rename_i hfree
        cases h
        exact .inr ⟨d, arg, (statement_iff line _).mp hs, hfree, rfl⟩
  · intro hmeant
    rcases hmeant with ⟨hs, rfl⟩ | ⟨d, arg, hs, hfree, rfl⟩
    · have hst := (statement_iff line _).mpr hs
      simp only [lineMeans, hst]
    · have hst := (statement_iff line _).mpr hs
      simp only [lineMeans, hst, if_neg hfree]

/-- A file is read line after line. -/
theorem file_says_cons {lines : List (List UInt8)} {config config' : ParsedCfg} :
    FileSays config (line :: lines) config' ↔
      ∃ mid, lineMeans config line = some mid ∧ FileSays mid lines config' := by
  constructor
  · intro h
    cases h with
    | skip hs hrest => exact ⟨config, (line_means_iff _ _ _).mpr (.inl ⟨hs, rfl⟩), hrest⟩
    | directive hs hfree hrest =>
      exact ⟨_, (line_means_iff _ _ _).mpr (.inr ⟨_, _, hs, hfree, rfl⟩), hrest⟩
  · intro hread
    obtain ⟨mid, hmid, hrest⟩ := hread
    rcases (line_means_iff _ _ _).mp hmid with ⟨hs, rfl⟩ | ⟨d, arg, hs, hfree, rfl⟩
    · exact .skip hs hrest
    · exact .directive hs hfree hrest

theorem file_says_nil {config config' : ParsedCfg} :
    FileSays config [] config' ↔ config' = config := by
  constructor
  · intro h
    cases h
    rfl
  · intro hsame
    subst hsame
    exact .nil

/-- The configuration of a file is the fold of what its lines mean. -/
theorem file_says_iff (config : ParsedCfg) (lines : List (List UInt8)) (config' : ParsedCfg) :
    FileSays config lines config' ↔ lines.foldlM lineMeans config = some config' := by
  induction lines generalizing config with
  | nil => rw [file_says_nil, List.foldlM_nil, eq_comm, Option.pure_def, Option.some.injEq]
  | cons line lines ih =>
    rw [file_says_cons, List.foldlM_cons, Option.bind_eq_bind, Option.bind_eq_some_iff]
    simp only [ih]

end Lcap.Proofs
