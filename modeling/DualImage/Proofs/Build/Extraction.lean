import DualImage.Proofs.Build.Frame
import DualImage.Proofs.Build.Steps

/-! What a build knows of its halves when it comes to compare them. -/
namespace DualImage
variable {dir : Path} {α : Type}

namespace Build
open World (Spares)
open Half (imagePath SettledIn)
variable {w w' : World} {h : Half} {symbols : SymbolTable}

/-- The tools stay what they are. -/
private def SameTools (w w' : World) : Prop := w'.tools = w.tools

private instance : IsPreorder World SameTools where
  refl _ := rfl
  trans _ _ _ h h' := Eq.trans h' h

private theorem sameTools_attempt {step : Disk → Except FileFault α × Disk} :
    Keeps SameTools (World.attempt step) :=
  Keeps.attempt fun _ => rfl

private theorem sameTools_run (c : Command) : Keeps SameTools (World.run c) := by
  have hrenew (q : Path) : Keeps SameTools (World.renew c q) :=
    (Keeps.failingAs sameTools_attempt).bind fun _ => Keeps.failingAs sameTools_attempt
  intro w
  by_cases hplain : c.output? = none ∨ w.tools.rule? c ≠ none
  · rw [World.run_eq_reply hplain]
    cases w.tools.reply c <;> rfl
  · obtain ⟨hout, hrule⟩ := not_or.1 hplain
    obtain ⟨q, hq⟩ := Option.ne_none_iff_exists'.1 hout
    rw [World.run_eq_renew (not_not.1 hrule) hq]
    exact ((hrenew q).bind fun _ => .pure _) (w.started c)

/-- Whatever commands a build starts, the tools stay what they are. -/
private theorem course_sameTools : Course (fun _ => True) (fun _ => True) SameTools where
  spoken _ _ h := h.unmoved.tools
  directories _ := Ensures.of_keeps sameTools_attempt
  record _ _ _ _ _ _ := Ensures.of_keeps sameTools_attempt
  run c _ := Ensures.of_keeps (sameTools_run c)
  archive c objects path _ _ := by
    intro w p w' hr
    obtain ⟨-, w₁, stale, w₂, hdirectories, hstale, hrest⟩ := Compiler.archive_steps hr
    have hdirectories : SameTools w w₁ := sameTools_attempt.ok hdirectories
    have hstale : SameTools w₁ w₂ := (World.isStale_eq_ok hstale).unmoved.tools
    apply trans_of SameTools (trans_of SameTools hdirectories hstale)
    cases stale with
    | false =>
      rw [if_neg Bool.false_ne_true] at hrest
      exact hrest ▸ rfl
    | true =>
      obtain ⟨w₃, w₄, tool, shown, hdelete, hsay, -, hrun⟩ := hrest
      have hdelete : SameTools w₂ w₃ := by
        split at hdelete
        · exact sameTools_attempt.ok hdelete
        · exact hdelete ▸ rfl
      exact trans_of SameTools (trans_of SameTools hdelete hsay.unmoved.tools)
        ((sameTools_run _).ok hrun)

private theorem issues_all (h : Half) : h.Issues (fun _ => True) fun _ => True := by
  constructor <;> intros <;> trivial

private theorem buildApplication_eq_ok {s u : Half × World}
    (hr : buildApplication s = .ok symbols u) : u.1.extracted s.2.tools = .ok symbols := by
  obtain ⟨w, hbuild, hextract⟩ := buildApplication_steps hr
  obtain ⟨-, htools⟩ := Half.of_build course_sameTools (issues_all _) hbuild
  rw [← htools]
  exact ((u.1.answers_extractSymbols w).of_ok hextract).1

private theorem buildLoader_eq_ok {plan : Target.Plan} {linked : SymbolTable} {s u : Half × World}
    (hr : buildLoader plan s = .ok (symbols, linked) u) :
    u.1.extracted s.2.tools = .ok symbols ∧ u.1.linkedTable s.2.tools = .ok linked ∧
      u.2.tools = s.2.tools := by
  obtain ⟨w₁, w₂, w₃, hbuild, ⟨binary, hlink⟩, hextract, hread⟩ := buildLoader_steps hr
  obtain ⟨-, htools₁⟩ := Half.of_build course_sameTools (issues_all _) hbuild
  have htools₂ := Half.ensures_link course_sameTools (issues_all _) _ _ hlink
  have hof := (u.1.answers_extractSymbols w₂).of_ok hextract
  have hread := (u.1.answers_readBinary w₃).of_ok hread
  have htools : w₂.tools = s.2.tools := trans_of SameTools htools₁ htools₂
  rw [hof.2.unmoved.tools, htools] at hread
  rw [htools] at hof
  exact ⟨hof.1, hread.1, hread.2.unmoved.tools.trans (hof.2.unmoved.tools.trans htools)⟩

/-- The symbols are those that the tools list of the archives. -/
structure Extraction.Of (tools : Tools) (x : Extraction) : Prop where
  loader : x.loader.extracted tools = .ok x.loaderSymbols
  application : x.application.extracted tools = .ok x.applicationSymbols

/-- Once both halves are built, their symbols are those that the tools list of them. -/
theorem halves_of {plan : Target.Plan} {loader : Half} {s s' : Workshop × World} {x : Extraction}
    (hr : halves plan loader s = .ok x s') :
    x.Of s.2.tools ∧ x.loader.linkedTable s.2.tools = .ok x.linked := by
  obtain ⟨-, w, hbuilt, happlied⟩ := halves_steps hr
  obtain ⟨hloader, hlinked, htools⟩ := buildLoader_eq_ok hbuilt
  have happlication := buildApplication_eq_ok happlied
  rw [htools] at happlication
  exact ⟨⟨hloader, happlication⟩, hlinked⟩

/-- When both halves are built, their symbols are known, and the loader image is what it was. -/
theorem halves_eq_ok {plan : Target.Plan} {loader : Half} {s s' : Workshop × World} {x : Extraction}
    (hs : s.1.Orderly dir) (hl : loader.SettledIn dir) (hname : loader.name = "loader")
    (hr : halves plan loader s = .ok x s') :
    x.Of s.2.tools ∧ x.loader.SettledIn dir ∧ x.loader.name = "loader" ∧
      Spares (imagePath dir) s.2 s'.2 := by
  have hkept := (keeps_halves plan hl hname).ok hr hs
  obtain ⟨-, w, hbuilt, -⟩ := halves_steps hr
  obtain ⟨harchives, -⟩ := (keeps_buildLoader plan).ok hbuilt hl.1 hl.2
  exact ⟨(halves_of hr).1, hl.of_archives harchives,
    (Half.name_of_archives harchives).trans hname, hkept.2⟩

/-- Two builds compare the same archives, in the same order and with the same tools. -/
structure Extraction.SameArchives (x y : Extraction) : Prop where
  loader : x.loader.shelf = y.loader.shelf
  application : x.application.shelf = y.application.shelf
  loaderCompiler : x.loader.compiler = y.loader.compiler
  applicationCompiler : x.application.compiler = y.application.compiler

namespace Extraction.Of
variable {x y : Extraction} {tools tools' : Tools}

/-- Symbols stay what they are as long as the archives are listed alike. -/
theorem of_dumps (hx : x.Of tools)
    (hdump : ∀ c, ∀ e ∈ x.shelf, tools.dump c e.2 = tools'.dump c e.2) : x.Of tools' where
  loader := by
    refine Half.extracted_of_dumps (fun e he => hdump _ e ?_) hx.loader
    exact List.mem_append_left _ he
  application := by
    refine Half.extracted_of_dumps (fun e he => hdump _ e ?_) hx.application
    exact List.mem_append_right _ he

theorem peaceful (hx : x.Of tools) (hy : y.Of tools) (hsame : x.SameArchives y)
    (hpeaceful : y.Peaceful) : x.Peaceful := by
  have hloader := Half.symbols_eq_of_shelf hsame.loader hsame.loaderCompiler hx.loader hy.loader
  have happlication := Half.symbols_eq_of_shelf hsame.application hsame.applicationCompiler
    hx.application hy.application
  rw [Peaceful, hloader, happlication]
  exact hpeaceful

end Extraction.Of

/-- A build that ends well has found the halves in agreement, unless the loader image was up to
date. -/
theorem finish_eq_ok {plan : Target.Plan} {l : Target.LoaderPlan} {x : Extraction}
    {s s' : Workshop × World} {result : BuildResult} (hr : finish plan l x s = .ok result s') :
    (result.regenerated = false ↔ s.2.disk.Fresh x.loader.loaderImage x.inputs) ∧
      (result.regenerated = true → x.Peaceful) := by
  rw [finish_eq] at hr
  obtain ⟨j, s₁, hsettle, hconclude⟩ := Action.bind_eq_ok_iff.1 hr
  obtain ⟨-, -, -, hregenerated, -⟩ := conclude_steps hconclude
  obtain ⟨-, -, -, w, hreconcile, -⟩ := settle_steps hsettle
  obtain ⟨w₁, hstale, hrest⟩ := reconcile_steps hreconcile
  rw [hregenerated]
  cases hmade : j.regenerated with
  | true =>
    rw [hmade] at hstale hrest
    obtain ⟨_, w₂, hexports, -⟩ := Action.bind_eq_ok_iff.1 hrest
    exact ⟨iff_of_false Bool.noConfusion (World.isStale_eq_true hstale).2.not_fresh,
      fun _ => LoaderImage.conflicts_of_eq_ok hexports⟩
  | false =>
    rw [hmade] at hstale
    exact ⟨iff_of_true rfl (World.isStale_eq_false_iff.1 hstale).2, Bool.noConfusion⟩

end Build
end DualImage
