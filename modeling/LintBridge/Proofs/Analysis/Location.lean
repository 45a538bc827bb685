import LintBridge.Proofs.Analysis.Dialogue
import LintBridge.Proofs.Analysis.Likeness
import LintBridge.Proofs.Url.FilePath
import LintBridge.Report.Import

/-! A file that is given by its path.  It is known by a URL from which its path is read again, up
to the spelling of its components, so a report finds it by its path, and the worker is asked for it
under that path: `keeps_path`. -/

namespace LintBridge

/-- The file is a local one, at a path with the components of this one. -/
def SourceFile.IsAt (f : SourceFile) (p : Path) : Prop :=
  ∃ q, f.path? = some q ∧ q.components = p.components

namespace SourceFile

variable {p : Path} {language : String} {f : SourceFile}

theorem url_of_ofPath? (h : ofPath? p language = some f) :
    ∃ cs, (∀ c ∈ cs, c.IsProper) ∧ p.components = .root :: cs ∧ f.url = Url.ofComponents cs := by
  obtain ⟨url, given, rfl⟩ := Option.map_eq_some_iff.mp h
  cases absolute : p.isAbsolute with
  | false =>
    rw [Url.ofPath?_eq_none.mpr absolute] at given
    cases given
  | true =>
    obtain ⟨cs, proper, read⟩ := Path.isAbsolute_iff.mp absolute
    rw [Url.ofPath?_of_components read] at given
    exact ⟨cs, proper, read, (Option.some.inj given).symm⟩

theorem isAt_of_url {cs : List Path.Component} (proper : ∀ c ∈ cs, c.IsProper)
    (read : p.components = .root :: cs) (h : f.url = Url.ofComponents cs) : f.IsAt p := by
  obtain ⟨q, back, same⟩ := Url.toPath?_ofComponents proper
  exact ⟨q, (congrArg Url.toPath? h).trans back, same.trans read.symm⟩

end SourceFile

namespace Report.Import

theorem fileAt?_of_isAt {base : Path} {files : List SourceFile} {source : String} {p : Path}
    (same : (base.joinString source).components = p.components) {file : SourceFile}
    (listed : file ∈ files) (here : file.IsAt p) :
    ∃ found ∈ files, fileAt? base files source = some found ∧ found.IsAt p := by
  have stands : ∀ g : SourceFile, g.path?.any (base.joinString source).same = true ↔ g.IsAt p := by
    intro g
    cases read : g.path? with
    | none => simp [SourceFile.IsAt, read]
    | some q =>
      rw [Option.any_some, Path.same, same, beq_iff_eq]
      simp [SourceFile.IsAt, read, eq_comm]
  cases first : fileAt? base files source with
  | none =>
    have missed := List.find?_eq_none.mp first file listed
    exact absurd ((stands file).mpr here) missed
  | some found =>
    have hit := List.find?_some first
    exact ⟨found, List.mem_of_find?_eq_some first, rfl, (stands found).mp hit⟩

end Report.Import

namespace Analysis

variable {σ : Type}

/-! ### What is asked for -/

theorem length_answered_le (r : Run σ) : r.answered.length ≤ r.requests.length := by
  rw [Run.answered, Run.requests, List.length_filterMap_eq_countP, List.length_filterMap_eq_countP]
  refine List.countP_mono_left fun e _ answered => ?_
  cases e <;> first | rfl | cases answered

theorem alike_withList (s : Surroundings σ) : Alike s s.withList fun v w => v = w.1 where
  now := by rintro _ _ rfl; rfl
  isCancelled := by rintro _ _ rfl; rfl
  files := by rintro _ _ rfl; exact ⟨rfl, rfl⟩
  workDir := by rintro _ _ rfl; exact ⟨rfl, rfl⟩
  store := by rintro _ _ _ _ rfl; exact ⟨rfl, rfl⟩
  readText := by rintro _ _ _ rfl; exact ⟨rfl, rfl⟩
  save := by rintro _ _ _ rfl; rfl
  ensureRunning := by rintro _ _ rfl; exact ⟨rfl, rfl⟩
  takeNotices := by rintro _ _ rfl; exact ⟨rfl, rfl⟩
  commandInfo := by rintro _ _ rfl; exact ⟨rfl, rfl⟩
  isAlive := by rintro _ _ rfl _; exact ⟨rfl, rfl⟩
  analyze := by rintro _ _ _ rfl _; exact ⟨rfl, rfl⟩

/-- A completed run has as many answers as there are local files among the eligible ones. -/
theorem length_answered_of_completed (s : Surroundings σ) (rules : RuleSet) (options : Options)
    (warnings : WarningList) (world : σ) {summary : Summary}
    (ended : (execute s rules options warnings world).1 = .ok summary)
    (completed : summary.status = .completed) :
    (execute s rules options warnings world).2.answered.length =
      (localFiles ((s.files world).1.filter isEligible)).length := by
  -- The books are kept with a sink, which a list beside the surroundings is.
  obtain ⟨result, w, -, same⟩ :=
    execute_alike (alike_withList s) rules options warnings (w := (world, [])) rfl
  obtain ⟨eligible, done, books, -, whole⟩ :=
    books_execute (Sink.ofList s) rules options warnings (world, [])
  have placed := whole summary (result ▸ ended) completed
  have entered := congrArg Books.answered books
  rw [Books.foldl_enter] at entered
  have kept : (execute s.withList rules options warnings (world, [])).2.answered =
      (execute s rules options warnings world).2.answered := by rw [same]; rfl
  calc (execute s rules options warnings world).2.answered.length
      = done.length := by rw [← kept, show Run.answered _ = _ from entered]; simp
    _ = (done.map Analyzed.place).length := (List.length_map _).symm
    _ = _ := congrArg List.length placed

/-- The analyses that a run asks for, however it ends: they are of the first ones among the local
files that are eligible, each under its path, and of all of them if the run is completed. -/
theorem asked_execute (s : Surroundings σ) (rules : RuleSet) (options : Options)
    (warnings : WarningList) (world : σ) :
    let here := localFiles ((s.files world).1.filter isEligible)
    let out := execute s rules options warnings world
    ∃ asked, out.2.requests.map (·.file) = asked.map Prod.snd ∧ asked <+: here ∧
      ∀ summary, out.1 = .ok summary → summary.status = .completed → asked = here := by
  intro here out
  obtain ⟨xs, events, _, _, converses, -, said, -⟩ :=
    converses_execute (s := s) rules options warnings world
  have requests : out.2.requests = xs.map
      (Exchange.request (RuleSet.configPath (s.workDir (s.files world).2).1)) := by
    rw [← requestsIn_transcript, said]
    exact converses.dialogue.requests
  refine ⟨xs.map Exchange.place, ?_, converses.placed, fun summary ended completed => ?_⟩
  · rw [requests, List.map_map, List.map_map]
    rfl
  · refine converses.placed.eq_of_length_le ?_
    calc here.length
        = out.2.answered.length :=
          (length_answered_of_completed s rules options warnings world ended completed).symm
      _ ≤ out.2.requests.length := length_answered_le _
      _ = (xs.map Exchange.place).length := by rw [requests, List.length_map, List.length_map]

theorem path?_of_mem_localFiles {files : List SourceFile} {file : SourceFile} {path : Path}
    (h : (file, path) ∈ localFiles files) : file.path? = some path := by
  obtain ⟨_, -, located⟩ := List.mem_filterMap.mp h
  obtain ⟨q, read, same⟩ := Option.map_eq_some_iff.mp located
  cases same
  exact read

theorem mem_localFiles {files : List SourceFile} {file : SourceFile} {path : Path}
    (listed : file ∈ files) (read : file.path? = some path) : (file, path) ∈ localFiles files :=
  List.mem_filterMap.mpr ⟨file, listed, by rw [read]; rfl⟩

end Analysis

open Analysis

/-- A path gives a file just if it is absolute.  Then the file is local, at a path with the same
components, its URL is ASCII, and two paths give the same URL just if they have the same components.
A file with this URL, whatever else is declared of it, is found in an index by every spelling of the
path, and is itself found if no other file stands there.  A run that asks for its analysis does so
under a path with these components, and a completed run has done so if the file is eligible. -/
theorem SourceFile.keeps_path (p : Path) (language : String) :
    (ofPath? p language = none ↔ p.isAbsolute = false) ∧
    ∀ f, ofPath? p language = some f →
      f.IsAt p ∧
      (∀ c ∈ f.display.toList, c.toNat < 128) ∧
      (∀ p' language' f', ofPath? p' language' = some f' →
        (f'.url = f.url ↔ p'.components = p.components) ∧
        (f'.display = f.display ↔ p'.components = p.components)) ∧
      ∀ file : SourceFile, file.url = f.url →
        (∀ base files source, file ∈ files →
          (base.joinString source).components = p.components →
          ∃ found ∈ files, Report.Import.fileAt? base files source = some found ∧ found.IsAt p ∧
            ((∀ g ∈ files, g.IsAt p → g = file) → found = file)) ∧
        ∀ (σ : Type) (s : Surroundings σ) rules options warnings world,
          let eligible := (s.files world).1.filter isEligible
          let out := execute s rules options warnings world
          ∃ asked, out.2.requests.map (·.file) = asked.map Prod.snd ∧
            asked <+: localFiles eligible ∧
            (∀ path, (file, path) ∈ asked → path.components = p.components) ∧
            ∀ summary, out.1 = .ok summary → summary.status = .completed → file ∈ eligible →
              ∃ path, (file, path) ∈ asked := by
  refine ⟨by rw [ofPath?, Option.map_eq_none_iff, Url.ofPath?_eq_none], ?_⟩
  intro f made
  obtain ⟨cs, proper, read, url⟩ := url_of_ofPath? made
  refine ⟨isAt_of_url proper read url, ?_, ?_, ?_⟩
  · rw [display, url]
    exact Url.ascii_ofComponents cs
  · intro p' language' f' made'
    obtain ⟨cs', proper', read', url'⟩ := url_of_ofPath? made'
    have apart := Url.ofComponents_injective proper' proper
    rw [display, display, url, url', read, read', List.cons.injEq]
    exact ⟨⟨fun same => ⟨rfl, apart (congrArg Url.text same)⟩, fun same => by rw [same.2]⟩,
      ⟨fun same => ⟨rfl, apart same⟩, fun same => by rw [same.2]⟩⟩
  · intro file known
    have here : file.IsAt p := isAt_of_url proper read (known.trans url)
    refine ⟨fun base files source listed same => ?_, ?_⟩
    · obtain ⟨found, member, first, there⟩ := Report.Import.fileAt?_of_isAt same listed here
      exact ⟨found, member, first, there, fun alone => alone found member there⟩
    · intro σ s rules options warnings world eligible out
      obtain ⟨q, local_, components⟩ := here
      obtain ⟨asked, requests, within, whole⟩ := asked_execute s rules options warnings world
      refine ⟨asked, requests, within, fun path sent => ?_, ?_⟩
      · have located := path?_of_mem_localFiles (within.subset sent)
        obtain rfl := Option.some.inj (located.symm.trans local_)
        exact components
      · intro summary ended completed listed
        rw [whole summary ended completed]
        exact ⟨q, mem_localFiles listed local_⟩

end LintBridge
