import DualImage.Proofs.Build.Steps
import DualImage.Proofs.LoaderImage.Republished

/-! What the single steps of a build respect, its stages respect. -/
namespace DualImage.Build
variable {C : Command → Prop} {A : Path → Prop} {R : World → World → Prop} [IsPreorder World R]
  (hcourse : Course C A R) {plan : Target.Plan} {l : Target.LoaderPlan}
include hcourse

theorem of_buildLoader {s s' : Half × World} {symbols linked : SymbolTable} (hh : s.1.Issues C A)
    (hr : buildLoader plan s = .ok (symbols, linked) s') :
    (∃ archives, s'.1 = { s.1 with archives }) ∧ R s.2 s'.2 := by
  obtain ⟨w₁, w₂, w₃, hbuild, ⟨binary, hlink⟩, hextract, hread⟩ := buildLoader_steps hr
  obtain ⟨⟨archives, hsame⟩, hbuilt⟩ := Half.of_build hcourse hh hbuild
  have hissues : s'.1.Issues C A := hsame ▸ hh.of_archives archives
  have hlinked := Half.ensures_link hcourse hissues _ _ hlink
  have hextracted := Half.ensures_extractSymbols hcourse hissues hextract
  have hlisted := Half.ensures_readBinary hcourse hissues _ hread
  exact ⟨⟨archives, hsame⟩, trans_of R (trans_of R hbuilt hlinked) (trans_of R hextracted hlisted)⟩

theorem of_buildApplication {s s' : Half × World} {symbols : SymbolTable} (hh : s.1.Issues C A)
    (hr : buildApplication s = .ok symbols s') :
    (∃ archives, s'.1 = { s.1 with archives }) ∧ R s.2 s'.2 := by
  obtain ⟨w, hbuild, hextract⟩ := buildApplication_steps hr
  obtain ⟨⟨archives, hsame⟩, hbuilt⟩ := Half.of_build hcourse hh hbuild
  have hissues : s'.1.Issues C A := hsame ▸ hh.of_archives archives
  have hextracted := Half.ensures_extractSymbols hcourse hissues hextract
  exact ⟨⟨archives, hsame⟩, trans_of R hbuilt hextracted⟩

theorem of_halves {loader : Half} {x : Extraction} {s s' : Workshop × World}
    (hl : loader.Issues C A) (ha : s.1.application.Issues C A)
    (hr : halves plan loader s = .ok x s') :
    (∃ archives, x.loader = { loader with archives }) ∧
      (∃ archives, x.application = { s.1.application with archives }) ∧ R s.2 s'.2 := by
  obtain ⟨-, w, hbuilt, happlied⟩ := halves_steps hr
  obtain ⟨hloader, hfirst⟩ := of_buildLoader hcourse hl hbuilt
  obtain ⟨happlication, hsecond⟩ := of_buildApplication hcourse ha happlied
  exact ⟨hloader, happlication, trans_of R hfirst hsecond⟩

/-- Making the loader image, for commands that end in its name. -/
theorem ensures_loaderImage {c : Compiler} {binary image : Path}
    {loader application linked : SymbolTable}
    (hC : ∀ tool words, c.tool "objcopy" = .ok tool → C (tool :: (words ++ [image.toText]))) :
    Ensures R (LoaderImage.build c binary image loader application linked) := by
  apply (hcourse.of_answers fun w => LoaderImage.answers_exports loader application linked w).bind
  intro exported
  apply (hcourse.say _ _).bind
  intro _
  apply (hcourse.sayAll _ _).bind
  intro _
  apply (hcourse.copyKeeping hC).discard.bind
  intro _
  exact (hcourse.renameSymbols hC).bind fun _ => .pure exported

/-- Settling which packages the application links. -/
theorem of_settle {x : Extraction} {j : Settlement} {s s' : Workshop × World}
    (hl : x.loader.Issues C A)
    (hC : ∀ tool words, x.loader.compiler.tool "objcopy" = .ok tool →
      C (tool :: (words ++ [x.loader.loaderImage.toText])))
    (hr : settle plan l x s = .ok j s') : R s.2 s'.2 := by
  obtain ⟨-, -, -, w, hreconcile, hsaid⟩ := settle_steps hr
  obtain ⟨w₁, hstale, hrest⟩ := reconcile_steps hreconcile
  have hchecked := hcourse.isStale _ _ hstale
  refine trans_of R (trans_of R hchecked ?_) (hcourse.spoken _ _ hsaid)
  split at hrest
  · exact ensures_loaderImage hcourse hC hrest
  · obtain ⟨w₂, hspoken, hread⟩ := hrest
    refine trans_of R (hcourse.spoken _ _ hspoken) ?_
    have hlisted : Ensures R
        (LoaderImage.readExports x.loader.compiler x.loader.loaderImage) := by
      apply (hcourse.dumpSymbols fun tool htool => hl.dump tool htool _).bind
      intro text
      exact (hcourse.readListing _ text).bind fun _ => .pure _
    exact hlisted hread

theorem ensures_reportDifferences {loader application : Half} (hl : loader.Issues C A)
    (ha : application.Issues C A) : Ensures R (reportDifferences loader application) := by
  have hget : Ensures R (MonadState.get : Action World) := by
    rintro w _ _ ⟨⟩
    exact refl_of R w
  refine hget.bind fun w => Ensures.ite ?_ (.pure _)
  apply (Half.ensures_readBinary hcourse ha _).bind
  intro applicationSymbols
  apply (Half.ensures_readBinary hcourse hl _).bind
  intro loaderSymbols
  apply (hcourse.of_answers fun w => .compare false applicationSymbols loaderSymbols).bind
  intro compared
  apply (hcourse.sayAll _ _).bind
  intro _
  exact hcourse.sayAll _ _

/-- Linking the application, and what is said after it. -/
theorem of_conclude {x : Extraction} {j : Settlement} {result : BuildResult}
    {s s' : Workshop × World} (hl : x.loader.Issues C A) (ha : j.application.Issues C A)
    (hr : conclude l x j s = .ok result s') : R s.2 s'.2 := by
  obtain ⟨-, -, -, -, -, w, hlink, w', hreport, hsaid⟩ := conclude_steps hr
  have hlinked := Half.ensures_link hcourse ha _ _ hlink
  have hreported := ensures_reportDifferences hcourse hl ha hreport
  exact trans_of R hlinked (trans_of R hreported (hcourse.spoken _ _ hsaid))

end DualImage.Build
