import Lcap.Net.Deployment
import Lcap.Proofs.Caching
import Lcap.Proofs.EndToEnd

namespace Lcap.Proofs
open Reader Net Wire Network Systems

/-- The condition of the network, in each life of it. -/
def CarefulMove (N : Site) (d : Deployment) : DeploymentMove → Prop
  | .move m => Careful N d.net m
  | .read i startRc _ script => Careful N d.net (.enqueue i startRc script)
  | .append _ _ | .crash _ => True

instance (N : Site) (d : Deployment) : (l : DeploymentMove) → Decidable (CarefulMove N d l)
  | .move m => inferInstanceAs (Decidable (Careful N d.net m))
  | .read i startRc _ script =>
    inferInstanceAs (Decidable (Careful N d.net (.enqueue i startRc script)))
  | .append _ _ | .crash _ => isTrue trivial

/-- An application of the MDT has been given the record. -/
def GivenBack (N : Site) (i : Nat) (r : ChangelogRec) (hist : List NetEvent) : Prop :=
  ∃ cid raw, OfReader N i cid ∧ .returned cid (.record (some raw)) ∈ hist ∧ N.layout.Describes raw r

/-- What holds over all lives: each of them is a run of the network, and of every reader on
what was left of its changelog. What is not left has been released, and what has been
released was in the changelog and has been given to an application. -/
structure Durable (N : Site) (d : Deployment) : Prop where
  net : Reach (network N) (Careful N) d.net
  reads : ∀ i < N.config.ccfMdt.length, Reach (caching N.config.lcapCfg i) Always
    (d.net.readers i, d.streams i)
  sorted : ∀ i, Increasing (d.logs i)
  left : ∀ i < N.config.ccfMdt.length, ∃ lost ≤ (d.logs i).length,
    (d.streams i).log = (d.logs i).drop lost ∧
    ∀ r ∈ (d.logs i).take lost, Released i r d.past
  upto : ∀ i < N.config.ccfMdt.length, ∀ dev cli endrec rc,
    .reader i (.cleared dev cli endrec rc) ∈ d.past →
    endrec < 0 ∨ ∃ r ∈ d.logs i, (r.crIndex : Int) = endrec
  given : ∀ i < N.config.ccfMdt.length, ∀ r ∈ d.logs i, Released i r d.past → GivenBack N i r d.past

section
variable {N : Site} {x y : NetState} {d d' : Deployment} {i : Nat} {r : ChangelogRec}
  {hist : List NetEvent}

theorem released_append (h : Released i r hist) (post : List NetEvent) :
    Released i r (hist ++ post) := by
  obtain ⟨e, he, hc⟩ := h
  exact ⟨e, List.mem_append_left _ he, hc⟩

theorem GivenBack.append (h : GivenBack N i r hist) (post : List NetEvent) :
    GivenBack N i r (hist ++ post) := by
  obtain ⟨cid, raw, hof, hret, hdesc⟩ := h
  exact ⟨cid, raw, hof, List.mem_append_left _ hret, hdesc⟩

theorem released_by (h : Released i r hist) :
    ∃ dev cli endrec rc, .reader i (.cleared dev cli endrec rc) ∈ hist ∧
      (r.crIndex : Int) ≤ endrec := by
  obtain ⟨e, he, hc⟩ := h
  unfold covers at hc
  split at hc
  · obtain ⟨rfl, hle⟩ := of_decide_eq_true hc
    exact ⟨_, _, _, _, he, hle⟩
  · cases hc
  · cases hc

/-! ## What is released has been given -/

/-- A record of what is left is stored before the reader clears beyond it. -/
theorem Durable.stored (h : Durable N d) (hi : i < N.config.ccfMdt.length) :
    storedRecords (d.net.readers i).trace = (d.streams i).log.filter fun r =>
      r.crIndex < (d.net.readers i).reSrec :=
  (reach_caught (h.reads i hi)).stored

theorem Durable.logged (h : Durable N d) (hi : i < N.config.ccfMdt.length)
    (hr : r ∈ storedRecords (d.net.readers i).trace) :
    r ∈ d.logs i ∧ r.crIndex < (d.net.readers i).reSrec := by
  rw [h.stored hi] at hr
  obtain ⟨hmem, hlt⟩ := List.mem_filter.mp hr
  obtain ⟨lost, _, hlog, _⟩ := h.left i hi
  rw [hlog] at hmem
  exact ⟨List.mem_of_mem_drop hmem, of_decide_eq_true hlt⟩

/-- Of the records that a life has found, it releases those that it has given. -/
theorem Durable.given_now (h : Durable N d) (hi : i < N.config.ccfMdt.length)
    (hr : r ∈ (d.streams i).log) (hrel : Released i r d.net.hist) : GivenBack N i r d.net.hist := by
  obtain ⟨dev, cli, endrec, rc, he, hle⟩ := released_by hrel
  obtain ⟨pre, post, hs⟩ := List.append_of_mem he
  obtain ⟨hupto, hgiven⟩ := covered_given h.net hi hs
  rcases hupto with hneg | ⟨last, hlast, rfl⟩
  · omega
  · have hlt := (h.logged hi hlast).2
    have hmem : r ∈ storedRecords (d.net.readers i).trace := by
      rw [h.stored hi]
      exact List.mem_filter.mpr ⟨hr, decide_eq_true (by omega)⟩
    obtain ⟨cid, raw, hof, hret, hdesc⟩ := hgiven r hmem hle
    exact ⟨cid, raw, hof, hs ▸ List.mem_append_left _ hret, hdesc⟩

theorem Durable.given_ever (h : Durable N d) (hi : i < N.config.ccfMdt.length) (hr : r ∈ d.logs i)
    (hrel : Released i r d.hist) : GivenBack N i r d.hist := by
  have hpast : Released i r d.past → GivenBack N i r d.hist :=
    fun hp => (h.given i hi r hr hp).append _
  obtain ⟨lost, _, hlog, hlost⟩ := h.left i hi
  rw [← List.take_append_drop lost (d.logs i)] at hr
  rcases List.mem_append.mp hr with hr | hr
  · exact hpast (hlost r hr)
  · obtain ⟨e, he, hc⟩ := hrel
    rcases List.mem_append.mp he with he | he
    · exact hpast ⟨e, he, hc⟩
    · obtain ⟨cid, raw, hof, hret, hdesc⟩ := h.given_now hi (hlog ▸ hr) ⟨e, he, hc⟩
      exact ⟨cid, raw, hof, List.mem_append_right _ hret, hdesc⟩

/-- What is not released is left. -/
theorem Durable.still_there (h : Durable N d) (hi : i < N.config.ccfMdt.length) (hr : r ∈ d.logs i)
    (hrel : ¬ Released i r d.hist) : r ∈ (d.streams i).log := by
  obtain ⟨lost, _, hlog, hlost⟩ := h.left i hi
  rw [← List.take_append_drop lost (d.logs i)] at hr
  rcases List.mem_append.mp hr with hr | hr
  · exact absurd (released_append (hlost r hr) _) hrel
  · exact hlog ▸ hr

/-! ## The moves of an installation -/

theorem cached_append {cfg : LcapCfg} {s : ReaderEnv} {u : Upstream}
    (hnew : ∀ r ∈ u.log, r.crIndex < added.crIndex) :
    (caching cfg i).step (s, u) (.append added) = some (s, { u with log := u.log ++ [added] }) := by
  simp only [caching, cachingStep]
  exact if_pos hnew

theorem mem_appended {logs : Nat → List ChangelogRec} (hr : r ∈ logs j) :
    r ∈ Function.update logs i (logs i ++ [added]) j := by
  by_cases he : j = i
  · subst he
    rw [Function.update_self]
    exact List.mem_append_left _ hr
  · rwa [Function.update_of_ne he]

theorem mem_of_appended {logs : Nat → List ChangelogRec}
    (hr : r ∈ Function.update logs i (logs i ++ [added]) j) :
    r ∈ logs j ∨ j = i ∧ r = added := by
  by_cases he : j = i
  · subst he
    rw [Function.update_self] at hr
    exact (List.mem_append.mp hr).imp_right fun hr => ⟨rfl, List.mem_singleton.mp hr⟩
  · rw [Function.update_of_ne he] at hr
    exact .inl hr

theorem Durable.append (h : Durable N d) (hnew : ∀ r ∈ d.logs i, r.crIndex < added.crIndex) :
    Durable N { d with
      logs := Function.update d.logs i (d.logs i ++ [added])
      streams := Function.update d.streams i
        { d.streams i with log := (d.streams i).log ++ [added] } } := by
  -- the new record is behind all that has been released
  have hbehind : i < N.config.ccfMdt.length → ¬ Released i added d.past := by
    intro hi hrel
    obtain ⟨dev, cli, endrec, rc, he, hle⟩ := released_by hrel
    rcases h.upto i hi _ _ _ _ he with hneg | ⟨last, hlast, rfl⟩
    · omega
    · have := hnew last hlast
      omega
  refine ⟨h.net, fun j hj => ?_, fun j => ?_, fun j hj => ?_, fun j hj dev cli endrec rc he => ?_,
    fun j hj r hr hrel => ?_⟩
  · by_cases he : j = i
    · subst he
      simp only [Function.update_self]
      obtain ⟨lost, _, hlog, _⟩ := h.left j hj
      refine (h.reads j hj).tail trivial (cached_append fun r hr => ?_)
      exact hnew r (List.mem_of_mem_drop (hlog ▸ hr))
    · simp only [Function.update_of_ne he]
      exact h.reads j hj
  · by_cases he : j = i
    · subst he
      simp only [Function.update_self]
      refine List.pairwise_append.mpr ⟨h.sorted j, List.pairwise_singleton _ _, fun a ha b hb => ?_⟩
      rw [List.mem_singleton.mp hb]
      exact hnew a ha
    · simp only [Function.update_of_ne he]
      exact h.sorted j
  · by_cases he : j = i
    · subst he
      obtain ⟨lost, hle, hlog, hlost⟩ := h.left j hj
      simp only [Function.update_self]
      refine ⟨lost, by simpa using Nat.le_succ_of_le hle, ?_, ?_⟩
      · rw [hlog, List.drop_append_of_le_length hle]
      · rwa [List.take_append_of_le_length hle]
    · simp only [Function.update_of_ne he]
      exact h.left j hj
  · rcases h.upto j hj dev cli endrec rc he with hneg | ⟨last, hlast, heq⟩
    · exact .inl hneg
    · exact .inr ⟨last, mem_appended hlast, heq⟩
  · rcases mem_of_appended hr with hr | ⟨rfl, rfl⟩
    · exact h.given j hj r hr hrel
    · exact absurd hrel (hbehind hj)

/-- The network moves, and the readers with their streams. -/
theorem Durable.moved (h : Durable N d) (hc : Careful N d.net l) (hs : netStep N d.net l = some y)
    {streams : Nat → Upstream} (hlog : ∀ j, (streams j).log = (d.streams j).log)
    (hreads : ∀ j < N.config.ccfMdt.length,
      Steps (caching N.config.lcapCfg j) Always (d.net.readers j, d.streams j)
        (y.readers j, streams j)) :
    Durable N { d with net := y, streams := streams } := by
  refine ⟨h.net.tail hc hs, fun j hj => (h.reads j hj).trans (hreads j hj), h.sorted,
    fun j hj => ?_, h.upto, h.given⟩
  obtain ⟨lost, hle, hleft, hlost⟩ := h.left j hj
  exact ⟨lost, hle, (hlog j).trans hleft, hlost⟩

theorem Durable.read (h : Durable N d) (hc : Careful N d.net (.enqueue i startRc script))
    (hstart : (d.net.readers i).reClpriv = false →
      StartsBefore (d.net.readers i) (d.streams i) startPos)
    (hrecv : received script <+: (d.streams i).log.drop
      (streamPos (d.net.readers i) (d.streams i) startPos))
    (hs : netStep N d.net (.enqueue i startRc script) = some y) :
    Durable N { d with
      net := y
      streams := Function.update d.streams i { d.streams i with
        pos := streamPos (d.net.readers i) (d.streams i) startPos +
          (received script).length } } := by
  refine h.moved hc hs (fun j => ?_) fun j hj => ?_
  · by_cases he : j = i
    · subst he
      rw [Function.update_self]
    · rw [Function.update_of_ne he]
  · have hturn := net_step_reader hs j
    generalize y.readers j = t at hturn ⊢
    by_cases he : j = i
    · subst he
      rw [Function.update_self]
      cases hturn with
      | stays hl => exact absurd rfl (hl startRc script)
      | reads henv =>
        have hstep : (caching N.config.lcapCfg j).step (d.net.readers j, d.streams j)
            (.read startRc startPos script) = some (t, { d.streams j with
              pos := streamPos (d.net.readers j) (d.streams j) startPos +
                (received script).length }) := by
          simp only [caching, cachingStep]
          rw [if_pos ⟨hstart, hrecv⟩, henv]
          rfl
        exact .single trivial hstep
    · rw [Function.update_of_ne he]
      cases hturn with
      | stays _ => exact .refl
      | reads _ => exact absurd rfl he

theorem Durable.move (h : Durable N d) (hne : isEnqueue m = false) (hc : Careful N d.net m)
    (hs : netStep N d.net m = some y) : Durable N { d with net := y } := by
  refine h.moved hc hs (fun _ => rfl) fun j _ => ?_
  have hturn := net_step_reader hs j
  generalize y.readers j = t at hturn ⊢
  cases hturn with
  | stays _ => exact .refl
  | @serves req io _ henv =>
    have hstep : (caching N.config.lcapCfg j).step (d.net.readers j, d.streams j)
        (.request req io) =
        some (t, d.streams j) := by
      simp only [caching, cachingStep, henv, Option.map_some]
    exact .single trivial hstep
  | reads _ => cases hne
  | signalled => exact .single (l := .sigterm) trivial rfl

/-- A reader that starts on a changelog which is not empty is one that finds it filled. -/
theorem reach_filled (cfg : LcapCfg) (i : Nat) {log : List ChangelogRec} (h : Increasing log) :
    Reach (caching cfg i) Always (initialReader cfg i, ⟨log, 0⟩) := by
  induction log using List.reverseRecOn with
  | nil => exact .refl
  | append_singleton log added ih =>
    obtain ⟨hlog, _, hlast⟩ := List.pairwise_append.mp h
    have hguard : ∀ r ∈ log, r.crIndex < added.crIndex :=
      fun r hr => hlast r hr added (List.mem_singleton_self _)
    exact (ih hlog).tail trivial (cached_append hguard)

theorem Durable.crash (h : Durable N d) {lost : Nat → Nat}
    (hlost : ∀ i ∈ List.range N.config.ccfMdt.length, ∀ r ∈ (d.logs i).take (lost i),
      Released i r d.hist) :
    Durable N { d with
      net := (network N).init
      streams := fun i => ⟨(d.logs i).drop (lost i), 0⟩
      past := d.hist } := by
  refine ⟨.refl, fun j hj => reach_filled _ j ((h.sorted j).sublist (List.drop_sublist _ _)),
    h.sorted,
    fun j hj => ?_, fun j hj dev cli endrec rc he => ?_, fun j hj r hr hrel =>
      h.given_ever hj hr hrel⟩
  · have hrel := hlost j (List.mem_range.mpr hj)
    rcases Nat.le_total (lost j) (d.logs j).length with hle | hle
    · exact ⟨lost j, hle, rfl, hrel⟩
    · refine ⟨(d.logs j).length, le_rfl, ?_, ?_⟩
      · rw [List.drop_length]
        exact List.drop_eq_nil_of_le hle
      · rw [List.take_length]
        rwa [List.take_of_length_le hle] at hrel
  · rcases List.mem_append.mp he with he | he
    · exact h.upto j hj dev cli endrec rc he
    · obtain ⟨pre, post, hs⟩ := List.append_of_mem he
      rcases (covered_given h.net hj hs).1 with hneg | ⟨last, hlast, heq⟩
      · exact .inl hneg
      · exact .inr ⟨last, (h.logged hj hlast).1, heq⟩

theorem Durable.step (h : Durable N d) (hc : CarefulMove N d l)
    (hs : deploymentStep N d l = some d') :
    Durable N d' := by
  cases l with
  | append i added =>
    simp only [deploymentStep] at hs
    split at hs
    case isFalse => cases hs
    rename_i hnew
    obtain rfl := Option.some.inj hs
    exact h.append hnew
  | read i startRc startPos script =>
    simp only [deploymentStep] at hs
    split at hs
    case isFalse => cases hs
    rename_i hok
    obtain ⟨y, hy, rfl⟩ := Option.map_eq_some_iff.mp hs
    exact h.read hc hok.1 hok.2 hy
  | move m =>
    simp only [deploymentStep] at hs
    split at hs
    case isTrue => cases hs
    rename_i hne
    obtain ⟨y, hy, rfl⟩ := Option.map_eq_some_iff.mp hs
    exact h.move (Bool.eq_false_iff.mpr hne) hc hy
  | crash lost =>
    simp only [deploymentStep] at hs
    split at hs
    case isFalse => cases hs
    rename_i hlost
    obtain rfl := Option.some.inj hs
    exact h.crash hlost

theorem reach_durable (h : Reach (deployment N) (CarefulMove N) d) : Durable N d := by
  refine h.preserve ?_ fun _ _ _ hd hc hs => hd.step hc hs
  refine ⟨.refl, fun i _ => .refl, fun _ => .nil, fun i _ => ⟨0, le_rfl, rfl, ?_⟩, ?_, ?_⟩
  · intro r hr
    cases hr
  · intro i _ dev cli endrec rc he
    cases he
  · intro i _ r hr
    cases hr

end

namespace Sample

/-- Two records are in the changelog of the first MDT; one is read, given and cleared before
everything crashes, and the changelog then starts with the other one. -/
def restarted : List DeploymentMove :=
  [.append 0 (record 1), .append 0 (record 2)] ++ (relayedRecord.take 7).map .move ++
  [.read 0 0 0 [.recv (record 1) true none, .fail atEnd]] ++ (relayedClear.drop 8).map .move ++
  [.crash fun i => if i = 0 then 1 else 0]

def deploymentAfter (ms : List DeploymentMove) : Deployment :=
  replay (deployment site) (deployment site).init ms

end Sample

end Lcap.Proofs
