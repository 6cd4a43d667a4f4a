import DualImage.Proofs.Workspace.Staleness

/-! What the comparison of times answers. It looks at the inputs one by one and stops at the first
that is newer or cannot be looked at, so their order may decide between a yes and a failure. No
order makes an output pass for up to date that is not. -/
namespace DualImage

namespace Disk
variable {d : Disk} {output p : Path} {inputs others : List Path} {s : Staleness}

/-- Neither the order of the inputs counts nor how often one of them is named. -/
theorem Fresh.of_subset (h : d.Fresh output inputs) (hsub : others ⊆ inputs) :
    d.Fresh output others := by
  obtain ⟨e, he, hinputs⟩ := h
  exact ⟨e, he, fun p hp => hinputs p (hsub hp)⟩

theorem FirstNewer.append (h : d.FirstNewer output inputs p) (more : List Path) :
    d.FirstNewer output (inputs ++ more) p := by
  obtain ⟨before, after, rfl, hnewer⟩ := h
  exact ⟨before, after ++ more, by simp, hnewer⟩

/-- Once a reason is found, further inputs are not looked at. -/
theorem staleness?_append (h : d.staleness? output inputs = .ok (some s)) (more : List Path) :
    d.staleness? output (inputs ++ more) = .ok (some s) := by
  rw [staleness?_eq_some_iff] at h ⊢
  rcases h with hmissing | ⟨p, hp, hs⟩
  · exact .inl hmissing
  · exact .inr ⟨p, hp.append more, hs⟩

end Disk

namespace World
variable {w : World} {output : Path} {inputs : List Path}

private theorem answer?_isStale_eq_false_iff :
    answer? (isStale output inputs w) = some false ↔ w.disk.Fresh output inputs := by
  constructor
  · intro h
    exact (isStale_eq_false_iff.1 (eq_ok_of_answer? h)).2
  · intro h
    rw [isStale_eq_false_iff.2 ⟨rfl, h⟩]
    rfl

private theorem answer?_isStale_eq_true_iff :
    answer? (isStale output inputs w) = some true ↔
      ∃ s, w.disk.staleness? output inputs = .ok (some s) := by
  rw [isStale_apply]
  split <;> simp_all [answer?]

/-- The answer is no exactly for an output that is there with all its inputs, none of them newer,
and yes exactly where the output is missing or the search meets a newer input first. What is not
answered with no in one order of the inputs is not in any other, and inputs that are added behind
change nothing about a yes. So a loader image counts as up to date only beside the linked loader and
all archives. -/
theorem stale_unless_fresh (w : World) (output : Path) (inputs : List Path) :
    (answer? (isStale output inputs w) = some false ↔
      ∃ e, w.disk.entry output = .ok e ∧
        ∀ p ∈ inputs, ∃ i, w.disk.entry p = .ok i ∧ i.time ≤ e.time) ∧
    (answer? (isStale output inputs w) = some true ↔
      w.disk.entry output = .error .missing ∨ ∃ p, w.disk.FirstNewer output inputs p) ∧
    (∀ order, order.Perm inputs → answer? (isStale output inputs w) ≠ some false →
      answer? (isStale output order w) ≠ some false) ∧
    (∀ more, answer? (isStale output inputs w) = some true →
      isStale output (inputs ++ more) w = isStale output inputs w) ∧
    ∀ loader archives, answer? (isLoaderImageStale output loader archives w) = some false ↔
      ∃ e, w.disk.entry output = .ok e ∧
        ∀ p ∈ loader :: archives, ∃ i, w.disk.entry p = .ok i ∧ i.time ≤ e.time := by
  refine ⟨answer?_isStale_eq_false_iff, ?_, fun order horder hanswer hfresh => ?_,
    fun more hanswer => ?_, fun loader archives => answer?_isStale_eq_false_iff⟩
  · simp only [answer?_isStale_eq_true_iff, Disk.staleness?_eq_some_iff]
    constructor
    · rintro ⟨s, ⟨hmissing, -⟩ | ⟨p, hp, -⟩⟩
      · exact .inl hmissing
      · exact .inr ⟨p, hp⟩
    · rintro (hmissing | ⟨p, hp⟩)
      · exact ⟨_, .inl ⟨hmissing, rfl⟩⟩
      · exact ⟨_, .inr ⟨p, hp, rfl⟩⟩
  · rw [answer?_isStale_eq_false_iff] at hfresh
    exact hanswer (answer?_isStale_eq_false_iff.2 (hfresh.of_subset horder.symm.subset))
  · obtain ⟨s, hs⟩ := answer?_isStale_eq_true_iff.1 hanswer
    rw [isStale_apply, isStale_apply, hs, Disk.staleness?_append hs]

/-- A loader image and a newer archive, without the loader that the image was made of. -/
def loaderGone : World where
  disk := ⟨⟨[([], .directory 1), (["rom.elf"], .file 5 ""), (["p.a"], .file 9 "")]⟩, 9, 100, []⟩
  tools := ⟨[], []⟩
  buildDirVariable := none
  console := .ofVerbosity 0
  commands := []

/-- The missing loader is noticed only where it comes before the newer archive. -/
example :
    let image : Path := ⟨.relative, ["rom.elf"]⟩
    let archive : Path := ⟨.relative, ["p.a"]⟩
    let loader : Path := ⟨.relative, ["loader.elf"]⟩
    answer? (isStale image [archive, loader] loaderGone) = some true ∧
      answer? (isStale image [loader, archive] loaderGone) = none := by
  decide +kernel

end World
end DualImage
