import LintBridge.Proofs.Path.Components
import LintBridge.Proofs.Url.Percent
import LintBridge.Url.Basic

/-! The URLs of local files.  An absolute path becomes the `file` URL of its components below the
root, as `ofPath?_of_components` says; the URL is ASCII, it determines these components, and it
gives back a path with just them: `toPath?_ofComponents`. -/

namespace LintBridge.Url

open LintBridge.Path LintBridge.Text

/-- The `file` URL of components below the root. -/
def ofComponents (cs : List Component) : Url :=
  ⟨"file", some {}, String.ofList (filePathText cs), none, none⟩

theorem ofPath?_of_components {p : Path} {cs : List Component} (h : p.components = .root :: cs) :
    ofPath? p = some (ofComponents cs) := by
  rw [ofPath?, h]
  rfl

theorem ofPath?_eq_none {p : Path} : ofPath? p = none ↔ p.isAbsolute = false := by
  cases absolute : p.isAbsolute with
  | true =>
    obtain ⟨cs, -, read⟩ := isAbsolute_iff.mp absolute
    simp [ofPath?_of_components read]
  | false =>
    have unrooted := root_not_mem_of_relative absolute
    unfold ofPath?
    split
    next cs read => exact absurd (read ▸ List.mem_cons_self) unrooted
    next => simp

/-! ### How it is written -/

theorem text_ofComponents (cs : List Component) :
    (ofComponents cs).text.toList = "file://".toList ++ filePathText cs := by
  simp [text, ofComponents, Authority.text]

theorem ascii_filePathText (cs : List Component) : ∀ c ∈ filePathText cs, c.toNat < 128 := by
  intro c within
  unfold filePathText at within
  split at within
  · obtain rfl := List.mem_singleton.mp within
    decide
  · obtain ⟨component, -, within⟩ := List.mem_flatMap.mp within
    obtain rfl | within := List.mem_cons.mp within
    · decide
    · exact ascii_percentEncode _ c within

theorem ascii_ofComponents (cs : List Component) :
    ∀ c ∈ (ofComponents cs).text.toList, c.toNat < 128 := by
  intro c within
  rw [text_ofComponents] at within
  have front : ∀ c ∈ "file://".toList, c.toNat < 128 := by simp
  exact (List.mem_append.mp within).elim (front c) (ascii_filePathText cs c)

/-! ### Back to a path -/

def segmentsOf (cs : List Component) : List (List Char) :=
  cs.map fun c => percentEncode .specialSegment c.bytes

theorem slash_not_mem_segmentsOf (cs : List Component) : ∀ s ∈ segmentsOf cs, '/' ∉ s := by
  intro s within
  obtain ⟨c, -, rfl⟩ := List.mem_map.mp within
  exact not_mem_percentEncode _ (by decide) (by decide) (by decide)

theorem segments?_ofComponents (cs : List Component) :
    (ofComponents cs).segments? = some (if cs = [] then [[]] else segmentsOf cs) := by
  cases cs with
  | nil => rfl
  | cons c rest =>
    have cut := splitAtEach_flatMap (slash_not_mem_segmentsOf (c :: rest))
    rw [segmentsOf, List.flatMap_map, List.flatMap_cons, List.cons_append, splitAtEach_cons_self,
      List.cons.injEq] at cut
    rw [if_neg (List.cons_ne_nil c rest), segmentsOf, ← cut.2]
    have each : segmentOf = fun c => '/' :: percentEncode .specialSegment c.bytes := rfl
    simp [segments?, ofComponents, filePathText, each]

theorem flatMap_segmentsOf (cs : List Component) :
    (segmentsOf cs).flatMap (fun s => slash :: percentDecode s) = written cs := by
  have back : ∀ s, percentDecode (percentEncode .specialSegment s) = s := fun s => by
    have read := percentDecode_percentEncode s (e := .specialSegment) (by decide) []
    rwa [List.append_nil, percentDecode, List.append_nil] at read
  simp only [segmentsOf, List.flatMap_map, back, written]

theorem components_bytesOfSegments {cs : List Component} (h : ∀ c ∈ cs, c.IsProper) :
    (Path.mk (bytesOfSegments (if cs = [] then [[]] else segmentsOf cs))).components =
      .root :: cs := by
  -- A slash that is added for a drive letter adds no component.
  have ended : ∀ r, properOf r = cs →
      let bytes := slash :: r
      (Path.mk (if endsInDrive bytes then bytes ++ [slash] else bytes)).components =
        .root :: cs := by
    intro r read bytes
    split
    · rw [List.cons_append, components_slash, properOf_append_slash, read]
      exact congrArg _ (List.append_nil cs)
    · rw [components_slash, read]
  cases cs with
  | nil => exact ended [] rfl
  | cons c rest =>
    rw [if_neg (List.cons_ne_nil c rest), bytesOfSegments, flatMap_segmentsOf]
    refine ended (c.bytes ++ written rest) ?_
    rw [← properOf_slash]
    exact properOf_written h

theorem toPath?_ofComponents {cs : List Component} (h : ∀ c ∈ cs, c.IsProper) :
    ∃ q, (ofComponents cs).toPath? = some q ∧ q.components = .root :: cs := by
  refine ⟨_, ?_, components_bytesOfSegments h⟩
  rw [toPath?, segments?_ofComponents]
  rfl

theorem ofComponents_injective {cs ds : List Component} (hcs : ∀ c ∈ cs, c.IsProper)
    (hds : ∀ d ∈ ds, d.IsProper) (h : (ofComponents cs).text = (ofComponents ds).text) :
    cs = ds := by
  have paths : (ofComponents cs).toPath? = (ofComponents ds).toPath? := by
    have texts := congrArg String.toList h
    rw [text_ofComponents, text_ofComponents, List.append_cancel_left_eq] at texts
    rw [ofComponents, ofComponents, texts]
  obtain ⟨p, read, components⟩ := toPath?_ofComponents hcs
  obtain ⟨q, read', components'⟩ := toPath?_ofComponents hds
  obtain rfl : p = q := Option.some.inj (read.symm.trans (paths.trans read'))
  exact (List.cons.inj (components.symm.trans components')).2

end LintBridge.Url
