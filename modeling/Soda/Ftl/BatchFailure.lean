import Soda.Ftl.Dispatch
import Soda.Ftl.FaultReplay

/-!
# When a batch fails

`amu_dispatch` changes the mapping of every write of a batch before it sends
anything to flash, and when something fails it counts all the new pages
invalid without going back to the old ones.  What the batch was to overwrite
is then lost.  Reads change no mapping, except that pages that were never
written get one.
-/

namespace Soda

variable {D : Type}

open Function Prog Sys List Option

def Backend.content [Zero D] (back : Backend D) (nsid lpa sector : ℕ) : Option D :=
  let entry := back.lookup nsid lpa
  if entry.ppa ≠ noPpa ∧ entry.bitmap.getLsbD sector then
    some ((back.flash entry.ppa).sector sector)
  else none

/-- The content of a logical page when a write has been completed. -/
def Txn.newContent [Zero D] (txn : Txn D) (back : Backend D) (sector : ℕ) : Option D :=
  if txn.bitmap.getLsbD sector then some (txn.data sector)
  else back.content txn.nsid txn.lpa sector

def Backend.PageHas [Zero D] (back : Backend D) (ppa : ℕ) (content : ℕ → Option D) : Prop :=
  ∀ sector value, content sector = some value → (back.flash ppa).sector sector = value

/-- The logical page of a transaction has a valid page with its old content or
with its new one; a page that was never written may still have none. -/
def Kept [Zero D] (g : Geometry) (before after : Backend D) (txn : Txn D) : Prop :=
  let ppa := (after.lookup txn.nsid txn.lpa).ppa
  ((before.lookup txn.nsid txn.lpa).ppa = noPpa ∧ ppa = noPpa) ∨
    ppa ≠ noPpa ∧ ¬Invalid after.planes (ppaToAddress g ppa) ∧
      (after.PageHas ppa (before.content txn.nsid txn.lpa) ∨
        txn.type = .write ∧ after.PageHas ppa (txn.newContent before))

/-- If the batch fails, every logical page in it is kept. -/
def KeepsBatch [Zero D] (env : Env D) (s : Sys D (Backend D)) (txns : List (Txn D)) : Prop :=
  (exec (resumeAlone (resumeAmu env) env) (amuDispatch env txns) s).Meets
    (fun _ => True) True fun result s' => result.1 ≠ none →
      ∀ txn ∈ txns, (s.back.domains txn.nsid).attached → Kept env.cfg.geo s.back s'.back txn

def Returns [Zero D] (env : Env D) (s : Sys D (Backend D)) (txns : List (Txn D)) : Prop :=
  ∃ result s', exec (resumeAlone (resumeAmu env) env) (amuDispatch env txns) s = .done (result, s')

/-- Up to the first transaction for a namespace that is not attached there are
only reads. -/
def WritesBlocked (back : Backend D) : List (Txn D) → Prop
  | [] => True
  | txn :: txns =>
    (back.domains txn.nsid).attached = false ∨ txn.type = .read ∧ WritesBlocked back txns

/-! ### Cleaning up -/

/-- The planes after the new pages of all writes have been counted invalid. -/
def cleaned (g : Geometry) (planes : Planes) : List (Txn D) → Planes
  | [] => planes
  | txn :: txns =>
    cleaned g (if txn.type = .write ∧ txn.ppaReady then
      bmInvalidatePage planes (ppaToAddress g txn.ppa) else planes) txns

variable {txns : List (Txn D)} {g : Geometry} {back : Backend D}

theorem wp_cleanupTxns {rules : Rules (Sys D (Backend D)) Wait (Answer D) Fault}
    {env : Env D} {s : Sys D (Backend D)} {post : Unit → Sys D (Backend D) → Prop} :
    wp rules (cleanupTxns env txns) post s ↔
      post () (s.setPlanes (cleaned env.cfg.geo s.back.planes txns)) := by
  induction txns generalizing s with
  | nil => exact Iff.rfl
  | cons txn txns ih =>
    rw [cleanupTxns, cleaned, wp_ite]
    split
    · rw [wp_bind, invalidatePpa, wp_modify, ih]
      exact Iff.rfl
    · exact ih

theorem cleaned_of_unready {planes : Planes}
    (hready : ∀ txn ∈ txns, txn.type = .write → txn.ppaReady = false) :
    cleaned g planes txns = planes := by
  induction txns with
  | nil => rfl
  | cons txn txns ih =>
    have hskip : ¬(txn.type = .write ∧ txn.ppaReady = true) := by
      rintro ⟨hwrite, hset⟩
      rw [hready txn mem_cons_self hwrite] at hset
      cases hset
    rw [cleaned, if_neg hskip]
    exact ih fun other hother => hready other (.tail txn hother)

theorem page_ppaToAddress_lt (g : Geometry) (ppa : ℕ) :
    (ppaToAddress g ppa).page < g.pagesPerBlock :=
  Nat.mod_lt _ g.pagesPerBlock_pos

theorem invalid_cleaned {planes : Planes} (hfit : MarksFit g planes) (addr : FlashAddress) :
    Invalid (cleaned g planes txns) addr ↔ Invalid planes addr ∨
      ∃ txn ∈ txns, txn.type = .write ∧ txn.ppaReady = true ∧ addr = ppaToAddress g txn.ppa := by
  induction txns generalizing planes with
  | nil => simp [cleaned]
  | cons txn txns ih =>
    rw [cleaned]
    split
    · rename_i hwrite
      rw [ih (hfit.invalidatePage _), invalid_bmInvalidatePage hfit (page_ppaToAddress_lt g _)]
      simp only [mem_cons, exists_eq_or_imp, hwrite.1, hwrite.2, true_and]
      tauto
    · rename_i hskip
      rw [ih hfit]
      simp only [mem_cons, exists_eq_or_imp]
      tauto

/-! ### Batches of reads -/

/-- Pages that were never written have got a physical page, and nothing else
has changed. -/
structure Extended (g : Geometry) (before back : Backend D) : Prop where
  flash_eq : back.flash = before.flash
  attached_eq : ∀ nsid, (back.domains nsid).attached = (before.domains nsid).attached
  invalid_iff : ∀ addr, Invalid back.planes addr ↔ Invalid before.planes addr
  lookup : ∀ nsid lpa, back.lookup nsid lpa = before.lookup nsid lpa ∨
    (before.lookup nsid lpa).ppa = noPpa ∧ (back.lookup nsid lpa).ppa ≠ noPpa ∧
      ¬Invalid back.planes (ppaToAddress g (back.lookup nsid lpa).ppa)

theorem Extended.refl (g : Geometry) (back : Backend D) : Extended g back back :=
  ⟨rfl, fun _ => rfl, fun _ => Iff.rfl, fun _ _ => .inl rfl⟩

theorem Extended.kept [Zero D] {before : Backend D} {txn : Txn D}
    (hextended : Extended g before back) (hvalid : (before.lookup txn.nsid txn.lpa).ppa ≠ noPpa →
      ¬Invalid before.planes (ppaToAddress g (before.lookup txn.nsid txn.lpa).ppa)) :
    Kept g before back txn := by
  rcases hextended.lookup txn.nsid txn.lpa with hsame | ⟨hold, hnew, hfresh⟩
  · by_cases hppa : (before.lookup txn.nsid txn.lpa).ppa = noPpa
    · exact .inl ⟨hppa, by rw [hsame, hppa]⟩
    · right
      rw [hsame]
      refine ⟨hppa, ?_, .inl ?_⟩
      · rw [hextended.invalid_iff]
        exact hvalid hppa
      · intro sector value hcontent
        rw [Backend.content] at hcontent
        split at hcontent
        · rw [hextended.flash_eq]
          exact some.inj hcontent
        · cases hcontent
  · refine .inr ⟨hnew, hfresh, .inl ?_⟩
    intro sector value hcontent
    rw [Backend.content, if_neg (fun hboth => hboth.1 hold)] at hcontent
    cases hcontent

theorem WritesBlocked.congr {back' : Backend D}
    (hblocked : WritesBlocked back txns) (hattached : ∀ nsid,
      (back'.domains nsid).attached = (back.domains nsid).attached) : WritesBlocked back' txns := by
  induction txns with
  | nil => trivial
  | cons txn txns ih =>
    rw [WritesBlocked] at hblocked ⊢
    rw [hattached]
    exact hblocked.imp_right fun hread => ⟨hread.1, ih hread.2⟩

section Amu

variable {g : Geometry} {s : Sys D (Backend D)} {before : Backend D} {nsid mvpn tick : ℕ}
  {domain' : AmDomain} {planes' : Planes} {mapping : ℕ → XlateEntry}

/-- A lookup. -/
theorem Extended.located (hextended : Extended g before s.back)
    (hnext : (s.back.domains nsid).Next domain' s.back.flash unheld mvpn (s.back.lookup nsid)) :
    Extended g before (s.amu nsid domain' s.back.planes s.back.flash tick).back where
  flash_eq := hextended.flash_eq
  attached_eq := by
    intro other
    rw [attached_amu_next hnext]
    exact hextended.attached_eq other
  invalid_iff := hextended.invalid_iff
  lookup := by
    intro other lpa
    have hsame : (s.amu nsid domain' s.back.planes s.back.flash
        tick).back.lookup other lpa = s.back.lookup other lpa := by
      rw [lookup_amu_next hnext]
      split
      · rename_i hother
        rw [hother]
      · rfl
    rw [hsame]
    exact hextended.lookup other lpa

/-- A page that was never written gets a physical page. -/
theorem Extended.placed {lpa : ℕ} {entry : XlateEntry} {addr : FlashAddress}
    (hextended : Extended g before s.back) (hblank : (s.back.lookup nsid lpa).ppa = noPpa)
    (hinvalid : ∀ other, Invalid planes' other ↔ Invalid s.back.planes other)
    (hrange : addr.InRange g) (hppa : entry.ppa = addressToPpa g addr)
    (hfresh : ¬Invalid planes' addr)
    (hnext : (s.back.domains nsid).Next domain' s.back.flash unheld mvpn
      (update (s.back.lookup nsid) lpa entry)) :
    Extended g before (s.amu nsid domain' planes' s.back.flash tick).back where
  flash_eq := hextended.flash_eq
  attached_eq := by
    intro other
    rw [attached_amu_next hnext]
    exact hextended.attached_eq other
  invalid_iff := by
    intro other
    rw [planes_amu, hinvalid]
    exact hextended.invalid_iff other
  lookup := by
    intro other lpa'
    rw [lookup_amu_next hnext]
    by_cases hother : other = nsid ∧ lpa' = lpa
    · obtain ⟨rfl, rfl⟩ := hother
      rw [if_pos rfl, update_self, hppa, ppaToAddress_addressToPpa g hrange]
      right
      refine ⟨?_, (addressToPpa_lt_noPpa g hrange).ne, hfresh⟩
      rcases hextended.lookup other lpa' with hsame | hnew
      · rw [← hsame]
        exact hblank
      · exact hnew.1
    · have hsame : (if other = nsid then
          update (s.back.lookup nsid) lpa entry lpa'
          else s.back.lookup other lpa') = s.back.lookup other lpa' := by
        split
        · rename_i hnsid
          rw [hnsid]
          exact update_of_ne (fun heq => hother ⟨hnsid, heq⟩) _ _
        · rfl
      rw [hsame]
      rcases hextended.lookup other lpa' with hold | ⟨hold, hmapped, hvalid⟩
      · exact .inl hold
      · refine .inr ⟨hold, hmapped, ?_⟩
        rw [planes_amu, hinvalid]
        exact hvalid

end Amu

section Reads

variable [Zero D] {env : Env D} {s : Sys D (Backend D)} {before : Backend D}
  {used : Set FlashAddress} {pages : ℕ → Finset ℕ}

variable {txns : List (Txn D)}

/-- The first loop over a list in which no write gets its turn. -/
theorem wp_translateAll_blocked (hset : Settled env.cfg.geo s.back used pages)
    (hmarks : ∀ addr, Invalid s.back.planes addr → addr ∈ used)
    (hextended : Extended env.cfg.geo before s.back)
    (hpages : ∀ txn ∈ txns, getMvpn txn.lpa ∈ pages txn.nsid)
    (hready : ∀ txn ∈ txns, txn.ppaReady = false) (hblocked : WritesBlocked s.back txns) :
    wp (aloneRules env (fun _ => True) True) (translateAll env txns)
      (fun result s' => (∃ used', Settled env.cfg.geo s'.back used' pages) ∧
        Extended env.cfg.geo before s'.back ∧
        (∀ txn ∈ result.2, txn.type = .write → txn.ppaReady = false) ∧
        (result.1 = none → ∀ txn ∈ result.2, txn.type = .read)) s := by
  induction txns generalizing s used with
  | nil =>
    refine ⟨⟨used, hset⟩, hextended, ?_, ?_⟩
    · intro txn htxn
      cases htxn
    · intro _ txn htxn
      cases htxn
  | cons txn txns ih =>
    have hpage := hpages txn mem_cons_self
    have hrest := fun other hother => hpages other (.tail txn hother)
    have hready' := fun other hother => hready other (.tail txn hother)
    -- the list when this transaction fails
    have hstop : ∀ error (s' : Sys D (Backend D)), s'.back = s.back →
        (∃ used', Settled env.cfg.geo s'.back used' pages) ∧ Extended env.cfg.geo before s'.back ∧
          (∀ other ∈ txn :: txns, other.type = .write → other.ppaReady = false) ∧
          ((some error : Status) = none → ∀ other ∈ txn :: txns, other.type = .read) := by
      intro error s' hback
      rw [hback]
      exact ⟨⟨used, hset⟩, hextended, fun other hother _ => hready other hother, (by simp)⟩
    -- the list when this transaction has its page
    have hgo : ∀ (txn' : Txn D) (s' : Sys D (Backend D)) used',
        txn'.type = .read → WritesBlocked s.back txns → Settled env.cfg.geo s'.back used' pages →
        (∀ addr, Invalid s'.back.planes addr → addr ∈ used') → Extended env.cfg.geo before s'.back →
        (∀ nsid, (s'.back.domains nsid).attached = (s.back.domains nsid).attached) →
        wp (aloneRules env (fun _ => True) True) (do
            let rest ← translateAll env txns
            pure (rest.1, txn' :: rest.2))
          (fun result s' =>
            (∃ used', Settled env.cfg.geo s'.back used' pages) ∧
            Extended env.cfg.geo before s'.back ∧
            (∀ txn ∈ result.2, txn.type = .write → txn.ppaReady = false) ∧
            (result.1 = none → ∀ txn ∈ result.2, txn.type = .read)) s' := by
      intro txn' s' used' htype hblocked' hset' hmarks' hextended' hattached
      rw [wp_bind]
      refine wp_mono (ih hset' hmarks' hextended' hrest hready' (hblocked'.congr hattached)) ?_
      rintro ⟨status, others⟩ s'' ⟨hset'', hextended'', hwrites, hreads⟩
      refine ⟨hset'', hextended'', ?_, ?_⟩
      · intro other hother hwrite
        rcases mem_cons.mp hother with rfl | hother
        · rw [htype] at hwrite
          cases hwrite
        · exact hwrites other hother hwrite
      · intro hnone other hother
        rcases mem_cons.mp hother with rfl | hother
        · exact htype
        · exact hreads hnone other hother
    have hread : (s.back.domains txn.nsid).attached = true →
        txn.type = .read ∧ WritesBlocked s.back txns := by
      intro hattached
      rcases hblocked with hdetached | hread
      · rw [hattached] at hdetached
        cases hdetached
      · exact hread
    rw [translateAll, wp_bind]
    apply wp_translateLpa hset hpage
    · intro _ hattached
      exact (hread hattached).1
    · exact fun _ => trivial
    · exact fun _ => trivial
    · trivial
    · exact fun _ => ⟨trivial, trivial⟩
    · intro _
      exact hstop _ s rfl
    · intro _ tick'
      exact hstop _ _ rfl
    · intro domain' tick' hattached htype _ hnext
      exact hgo _ _ used htype (hread hattached).2
        (hset.next hattached hpage hnext hset.bm hset.marks) hmarks
        (hextended.located hnext) (attached_amu_next hnext)
    · intro addr planes' domain' tick' hattached hblank halloc hnext
      obtain ⟨htype, hblocked'⟩ := hread hattached
      have hppa := hblank htype
      rw [retired, if_neg (not_not.mpr hppa)] at halloc
      obtain ⟨hunused, hrange, hbm⟩ := bmAllocPage_fresh hset.bm halloc
      refine hgo _ _ (insert addr used) ?_ hblocked'
        (hset.next hattached hpage hnext hbm (hset.marks.allocPage halloc))
        ?_ ?_ (attached_amu_next hnext)
      · exact (type_merged txn _ _).trans htype
      · intro other hother
        rw [planes_amu, invalid_bmAllocPage halloc] at hother
        exact Set.mem_insert_of_mem addr (hmarks other hother)
      · refine hextended.placed hppa (invalid_bmAllocPage halloc) hrange rfl ?_ hnext
        rw [invalid_bmAllocPage halloc]
        exact fun hinvalid => hunused (hmarks addr hinvalid)

/-- Reads that fail leave everything as it is. -/
theorem wp_submitAll_reads (hidle : s.back.outstanding = [])
    (hreads : ∀ txn ∈ txns, txn.type = .read) :
    wp (aloneRules env (fun _ => True) True) (submitAll txns) (fun result s' => s'.back = s.back ∧
        ∀ txn ∈ result.2, txn.type = .read) s := by
  induction txns generalizing s with
  | nil => exact ⟨rfl, hreads⟩
  | cons txn txns ih =>
    have htype := hreads txn mem_cons_self
    have hrest := fun other hother => hreads other (.tail txn hother)
    have hcons : ∀ (txn' : Txn D) (others : List (Txn D)),
        txn'.type = .read → (∀ other ∈ others, other.type = .read) →
        ∀ other ∈ txn' :: others, other.type = .read := by
      intro txn' others hhead htail other hother
      rcases mem_cons.mp hother with rfl | hother
      · exact hhead
      · exact htail other hother
    rw [submitAll, wp_ite]
    split
    · rw [wp_bind, submitTxn, htype]
      rw [wp_bind, wp_amuSubmit hidle]
      simp only [FlashOp.apply, ite_self, wp_ite, wp_pure]
      by_cases hstatus : env.faults s.tick = none
      · simp only [hstatus, if_true, wp_bind]
        refine wp_mono (ih hidle hrest) ?_
        rintro ⟨status, others⟩ s' ⟨hback, hothers⟩
        exact ⟨hback, hcons _ _ rfl hothers⟩
      · rw [if_neg hstatus, if_neg hstatus]
        exact ⟨trivial, hcons _ _ htype hrest⟩
    · rw [wp_bind]
      refine wp_mono (ih hidle hrest) ?_
      rintro ⟨status, others⟩ s' ⟨hback, hothers⟩
      exact ⟨hback, hcons _ _ htype hothers⟩

/-- A batch in which no write gets its turn keeps everything. -/
theorem keepsBatch_of_writesBlocked (hset : Settled env.cfg.geo s.back used pages)
    (hmarks : ∀ addr, Invalid s.back.planes addr → addr ∈ used)
    (hpages : ∀ txn ∈ txns, getMvpn txn.lpa ∈ pages txn.nsid)
    (hready : ∀ txn ∈ txns, txn.ppaReady = false)
    (hvalid : ∀ txn ∈ txns, (s.back.domains txn.nsid).attached →
      (s.back.lookup txn.nsid txn.lpa).ppa ≠ noPpa → ¬Invalid s.back.planes
        (ppaToAddress env.cfg.geo (s.back.lookup txn.nsid txn.lpa).ppa))
    (hblocked : WritesBlocked s.back txns) : KeepsBatch env s txns := by
  rw [KeepsBatch, ← wp_alone, amuDispatch, wp_bind]
  refine wp_mono (wp_translateAll_blocked hset hmarks
    (Extended.refl env.cfg.geo s.back) hpages hready hblocked) ?_
  rintro ⟨status, txns'⟩ s' ⟨⟨used', hset'⟩, hextended, hwrites, hreads⟩
  have hkept : ∀ txn ∈ txns, (s.back.domains txn.nsid).attached →
      Kept env.cfg.geo s.back s'.back txn :=
    fun txn htxn hattached => hextended.kept (hvalid txn htxn hattached)
  rw [wp_ite]
  split
  · rename_i hstatus
    rw [wp_bind]
    refine wp_mono (wp_submitAll_reads hset'.idle (hreads hstatus)) ?_
    rintro ⟨status', txns''⟩ s'' ⟨hback, hreads''⟩
    rw [wp_ite]
    split
    · exact fun hsome => absurd rfl hsome
    · rw [wp_bind, wp_cleanupTxns, cleaned_of_unready]
      · intro _
        rw [← hback] at hkept
        exact hkept
      · intro txn htxn hwrite
        rw [hreads'' txn htxn] at hwrite
        cases hwrite
  · rw [wp_bind, wp_cleanupTxns, cleaned_of_unready hwrites]
    intro _
    exact hkept

end Reads

/-! ### Batches with a write -/

/-- A write of the list has given a logical page its physical page, which is
counted invalid when the list is cleaned up. -/
def Doomed (g : Geometry) (back : Backend D) (txns : List (Txn D)) (nsid lpa : ℕ) : Prop :=
  ∃ addr, addr.InRange g ∧ (back.lookup nsid lpa).ppa = addressToPpa g addr ∧
    ∃ txn ∈ txns, txn.type = .write ∧ txn.ppaReady = true ∧ txn.ppa = addressToPpa g addr

theorem Doomed.cons {nsid lpa : ℕ} (hdoomed : Doomed g back txns nsid lpa)
    (txn : Txn D) : Doomed g back (txn :: txns) nsid lpa := by
  obtain ⟨addr, hrange, hppa, other, hother, hwrite⟩ := hdoomed
  exact ⟨addr, hrange, hppa, other, mem_cons_of_mem txn hother, hwrite⟩

theorem Doomed.not_kept [Zero D] {before after : Backend D} {txn : Txn D}
    (hdoomed : Doomed g after txns txn.nsid txn.lpa)
    (hcleaned : ∀ other ∈ txns, other.type = .write → other.ppaReady = true →
      Invalid after.planes (ppaToAddress g other.ppa)) : ¬Kept g before after txn := by
  obtain ⟨addr, hrange, hppa, other, hother, hwrite, hready, hsame⟩ := hdoomed
  rintro (⟨-, hnone⟩ | ⟨-, hvalid, -⟩)
  · rw [hppa] at hnone
    exact (addressToPpa_lt_noPpa g hrange).ne hnone
  · apply hvalid
    rw [hppa, ← hsame]
    exact hcleaned other hother hwrite hready

/-- What the first loop leaves behind: a logical page that had a physical one
still has it, or a write has taken it over. -/
structure Translated (g : Geometry) (before after : Backend D)
    (txns : List (Txn D)) (result : Status × List (Txn D)) : Prop where
  idle : after.outstanding = []
  marks : MarksFit g after.planes
  ready : result.1 = none → ∀ txn ∈ result.2, txn.ppaReady = true
  lookup : ∀ nsid lpa, (before.lookup nsid lpa).ppa ≠ noPpa →
    after.lookup nsid lpa = before.lookup nsid lpa ∨ Doomed g after result.2 nsid lpa
  doomed : ¬WritesBlocked before txns → ∃ txn ∈ txns, (before.domains txn.nsid).attached ∧
      Doomed g after result.2 txn.nsid txn.lpa

/-- What the translation of one transaction leaves behind. -/
structure TranslatedOne (g : Geometry) (before after : Backend D)
    (txn txn' : Txn D) : Prop where
  ready : txn'.ppaReady = true
  attached : (before.domains txn.nsid).attached = true
  attached_eq : ∀ nsid, (after.domains nsid).attached = (before.domains nsid).attached
  lookup : ∀ nsid lpa, (before.lookup nsid lpa).ppa ≠ noPpa →
    after.lookup nsid lpa = before.lookup nsid lpa ∨ Doomed g after [txn'] nsid lpa
  doomed : txn.type = .write → Doomed g after [txn'] txn.nsid txn.lpa

namespace Translated

variable {g : Geometry} {before middle after : Backend D} {txn txn' : Txn D}
  {txns others : List (Txn D)} {status : Status}

/-- What the first transaction has taken over stays so, or is taken over once
more. -/
theorem doomed_of_head (hrest : Translated g middle after txns (status, others)) {nsid lpa : ℕ}
    (hdoomed : Doomed g middle [txn'] nsid lpa) : Doomed g after (txn' :: others) nsid lpa := by
  obtain ⟨addr, hrange, hppa, hwrite⟩ := hdoomed
  have hmapped : (middle.lookup nsid lpa).ppa ≠ noPpa := by
    rw [hppa]
    exact (addressToPpa_lt_noPpa g hrange).ne
  rcases hrest.lookup nsid lpa hmapped with hsame | hdoomed
  · refine ⟨addr, hrange, by rw [hsame, hppa], txn', mem_cons_self, ?_⟩
    simpa using hwrite
  · exact hdoomed.cons txn'

theorem cons (hone : TranslatedOne g before middle txn txn')
    (hrest : Translated g middle after txns (status, others)) :
    Translated g before after (txn :: txns) (status, txn' :: others) where
  idle := hrest.idle
  marks := hrest.marks
  ready := by
    intro hnone other hother
    rcases mem_cons.mp hother with rfl | hother
    · exact hone.ready
    · exact hrest.ready hnone other hother
  lookup := by
    intro nsid lpa hmapped
    rcases hone.lookup nsid lpa hmapped with hsame | hdoomed
    · rw [← hsame] at hmapped ⊢
      exact (hrest.lookup nsid lpa hmapped).imp_right fun h => h.cons txn'
    · exact .inr (hrest.doomed_of_head hdoomed)
  doomed := by
    intro hwrites
    cases htype : txn.type with
    | write => exact ⟨txn, mem_cons_self, hone.attached, hrest.doomed_of_head (hone.doomed htype)⟩
    | read =>
      have hblocked : ¬WritesBlocked middle txns := by
        intro hblocked
        exact hwrites (.inr ⟨htype, hblocked.congr fun nsid => (hone.attached_eq nsid).symm⟩)
      obtain ⟨other, hother, hattached, hdoomed⟩ := hrest.doomed hblocked
      rw [hone.attached_eq] at hattached
      exact ⟨other, mem_cons_of_mem txn hother, hattached, hdoomed.cons txn'⟩

/-- The loop stops at a transaction for a namespace that is not attached. -/
theorem of_detached {error : Errno} (hidle : before.outstanding = [])
    (hmarks : MarksFit g before.planes) (hdetached : (before.domains txn.nsid).attached = false) :
    Translated g before before (txn :: txns) (some error, others) where
  idle := hidle
  marks := hmarks
  ready := nofun
  lookup := fun _ _ _ => .inl rfl
  doomed := fun hwrites => absurd (.inl hdetached) hwrites

end Translated

section Writes

variable {g : Geometry} {s : Sys D (Backend D)} {tick : ℕ}
  {domain' : AmDomain} {planes' : Planes} {txn txn' : Txn D}

/-- A lookup. -/
theorem TranslatedOne.located (hattached : (s.back.domains txn.nsid).attached)
    (htype : txn.type = .read) (hready : txn'.ppaReady = true)
    (hnext : (s.back.domains txn.nsid).Next domain' s.back.flash unheld
      (getMvpn txn.lpa) (s.back.lookup txn.nsid)) :
    TranslatedOne g s.back (s.amu txn.nsid domain' planes' s.back.flash tick).back txn txn' where
  ready := hready
  attached := hattached
  attached_eq := attached_amu_next hnext
  lookup := by
    intro nsid lpa _
    left
    rw [lookup_amu_next hnext]
    split
    · rename_i hnsid
      rw [hnsid]
    · rfl
  doomed := by
    intro hwrite
    rw [htype] at hwrite
    cases hwrite

/-- The transaction gets a fresh page. -/
theorem TranslatedOne.placed {entry : XlateEntry} {addr : FlashAddress}
    (hattached : (s.back.domains txn.nsid).attached)
    (hblank : txn.type = .read → (s.back.lookup txn.nsid txn.lpa).ppa = noPpa)
    (htype : txn'.type = txn.type) (hready : txn'.ppaReady = true)
    (hrange : addr.InRange g) (hppa' : txn'.ppa = addressToPpa g addr)
    (hppa : entry.ppa = addressToPpa g addr)
    (hnext : (s.back.domains txn.nsid).Next domain' s.back.flash unheld (getMvpn txn.lpa)
      (update (s.back.lookup txn.nsid) txn.lpa entry)) :
    TranslatedOne g s.back (s.amu txn.nsid domain' planes' s.back.flash tick).back txn txn' := by
  have hdoomed : txn.type = .write → Doomed g
      (s.amu txn.nsid domain' planes' s.back.flash tick).back [txn'] txn.nsid txn.lpa := by
    intro hwrite
    refine ⟨addr, hrange, ?_, txn', mem_singleton_self txn', htype.trans hwrite, hready, hppa'⟩
    rw [lookup_amu_next hnext, if_pos rfl, update_self, hppa]
  refine ⟨hready, hattached, attached_amu_next hnext, ?_, hdoomed⟩
  intro nsid lpa hmapped
  by_cases hsame : nsid = txn.nsid ∧ lpa = txn.lpa
  · obtain ⟨rfl, rfl⟩ := hsame
    cases hcase : txn.type with
    | read => exact absurd (hblank hcase) hmapped
    | write => exact .inr (hdoomed hcase)
  · left
    rw [lookup_amu_next hnext]
    split
    · rename_i hnsid
      rw [hnsid]
      exact update_of_ne (fun hlpa => hsame ⟨hnsid, hlpa⟩) _ _
    · rfl

variable [Zero D] {env : Env D} {used : Set FlashAddress} {pages : ℕ → Finset ℕ}

theorem wp_translateAll_reliable (hreliable : env.Reliable)
    {txns : List (Txn D)} (hset : Settled env.cfg.geo s.back used pages)
    (hpages : ∀ txn ∈ txns, getMvpn txn.lpa ∈ pages txn.nsid) :
    wp (aloneRules env (fun _ => True) True) (translateAll env txns)
      (fun result s' => Translated env.cfg.geo s.back s'.back txns result) s := by
  have hcalm := hreliable.not_fails
  induction txns generalizing s used with
  | nil =>
    refine ⟨hset.idle, hset.marks, ?_, fun _ _ _ => .inl rfl, ?_⟩
    · intro _ txn htxn
      cases htxn
    · exact fun hwrites => absurd trivial hwrites
  | cons txn txns ih =>
    have hpage := hpages txn mem_cons_self
    have hrest := fun other hother => hpages other (.tail txn hother)
    have hgo : ∀ (txn' : Txn D) (s' : Sys D (Backend D)) used',
        Settled env.cfg.geo s'.back used' pages →
        TranslatedOne env.cfg.geo s.back s'.back txn txn' →
        wp (aloneRules env (fun _ => True) True) (do
            let rest ← translateAll env txns
            pure (rest.1, txn' :: rest.2))
          (fun result s' => Translated env.cfg.geo s.back s'.back (txn :: txns) result) s' := by
      intro txn' s' used' hset' hone
      rw [wp_bind]
      refine wp_mono (ih hset' hrest) ?_
      rintro ⟨status, others⟩ s'' htranslated
      exact htranslated.cons hone
    rw [translateAll, wp_bind]
    apply wp_translateLpa hset hpage
    · exact fun hfails => absurd hfails hcalm
    · exact fun _ => trivial
    · exact fun _ => trivial
    · trivial
    · exact fun hfails => absurd hfails hcalm
    · intro hdetached
      exact Translated.of_detached hset.idle hset.marks hdetached
    · exact fun hfails => absurd hfails hcalm
    · intro domain' tick' hattached htype _ hnext
      exact hgo _ _ used (hset.next hattached hpage hnext hset.bm hset.marks)
        (.located hattached htype rfl hnext)
    · intro addr planes' domain' tick' hattached hblank halloc hnext
      obtain ⟨-, hrange, hbm⟩ := bmAllocPage_fresh (hset.bm.retired _) halloc
      refine hgo _ _ (insert addr used) (hset.next hattached hpage hnext hbm
          ((hset.marks.retired _).allocPage halloc))
        (.placed hattached hblank ?_ rfl hrange rfl rfl hnext)
      exact type_merged txn _ _

variable {txns : List (Txn D)}

variable {tolerated : Fault → Prop} {stuck : Prop} {error : Errno}
  {post : Status × List (Txn D) → Sys D (Backend D) → Prop} {before : Backend D}
  {result : Status × List (Txn D)}

/-- The first flash operation of the second loop fails. -/
theorem wp_submitAll_fails (hidle : s.back.outstanding = [])
    (hready : ∀ txn ∈ txns, txn.ppaReady = true) (hsome : txns ≠ [])
    (hfault : env.faults s.tick = some error) :
    wp (aloneRules env tolerated stuck) (submitAll txns) post s ↔
      post (some error, txns) { s with tick := s.tick + 1 } := by
  cases txns with
  | nil => exact absurd rfl hsome
  | cons txn txns =>
    rw [submitAll, if_pos (hready txn mem_cons_self), wp_bind, submitTxn]
    cases htype : txn.type with
    | read | write =>
      rw [wp_bind, wp_amuSubmit hidle, hfault]
      exact Iff.rfl

theorem Translated.not_kept (htranslated : Translated g before s.back txns result)
    (hdoomed : Doomed g s.back result.2 txn.nsid txn.lpa) :
    ¬Kept g before (s.setPlanes (cleaned g s.back.planes result.2)).back txn := by
  have hdoomed' : Doomed g (s.setPlanes (cleaned g s.back.planes result.2)).back result.2 txn.nsid
      txn.lpa := hdoomed
  apply hdoomed'.not_kept
  intro other hother hwrite hready
  exact (invalid_cleaned htranslated.marks _).mpr (.inr ⟨other, hother, hwrite, hready, rfl⟩)

/-- What is left of a batch once everything has been translated and flash has
stopped working. -/
theorem wp_dispatched_fails (htranslated : Translated g before s.back txns result)
    (hsome : result.2 ≠ []) (hfault : env.faults s.tick = some error)
    (hwp : wp (aloneRules env tolerated stuck) (do
      if result.1 = none then do
        let (status, txns) ← submitAll result.2
        if status = none then pure (none, txns)
        else do
          cleanupTxns env txns
          pure (status, txns)
      else do
        cleanupTxns env result.2
        pure (result.1, result.2)) post s) :
    ∃ error tick, post (some error, result.2) ({ s with tick := tick }.setPlanes
        (cleaned env.cfg.geo s.back.planes result.2)) := by
  split at hwp
  · rename_i hstatus
    rw [wp_bind, wp_submitAll_fails htranslated.idle
      (htranslated.ready hstatus) hsome hfault] at hwp
    dsimp only at hwp
    rw [if_neg (some_ne_none _), wp_bind, wp_cleanupTxns] at hwp
    exact ⟨error, s.tick + 1, hwp⟩
  · rename_i hstatus
    rw [wp_bind, wp_cleanupTxns] at hwp
    obtain ⟨other, hother⟩ := ne_none_iff_exists'.mp hstatus
    rw [hother] at hwp
    exact ⟨other, s.tick, hwp⟩

/-- A batch in which a write gets its turn can fail so that its page is
lost: flash stops working when everything has been translated. -/
theorem writesBlocked_of_keepsBatch (hset : Settled env.cfg.geo s.back used pages)
    (hpages : ∀ txn ∈ txns, getMvpn txn.lpa ∈ pages txn.nsid)
    (hreturns : Returns (env.withFaults fun _ => none) s txns)
    (hkeeps : ∀ faults, KeepsBatch (env.withFaults faults) s txns) : WritesBlocked s.back txns := by
  obtain ⟨calm, hcalm⟩ : ∃ calm, calm = env.withFaults fun _ => none := ⟨_, rfl⟩
  have hreliable : calm.Reliable := by
    intro tick
    rw [hcalm]
    rfl
  have hwp : wp (aloneRules calm (fun _ => True) True) (translateAll calm txns)
      (fun result s' => Translated calm.cfg.geo s.back s'.back txns result) s := by
    have hset' : Settled calm.cfg.geo s.back used pages := by
      rw [hcalm]
      exact hset
    exact wp_translateAll_reliable hreliable hset' hpages
  rw [wp_alone] at hwp
  rw [← hcalm] at hreturns
  obtain ⟨result, s', hexec⟩ := hreturns
  rw [amuDispatch, exec_bind] at hexec
  cases hfirst : exec (resumeAlone (resumeAmu calm) calm) (translateAll calm txns) s with
  | fault reason =>
    rw [hfirst] at hexec
    cases hexec
  | stuck =>
    rw [hfirst] at hexec
    cases hexec
  | done ended =>
    obtain ⟨translated, s₁⟩ := ended
    rw [hfirst] at hwp
    have htranslated : Translated env.cfg.geo s.back s₁.back txns translated := by
      rw [hcalm] at hwp
      exact hwp
    by_contra hwrites
    obtain ⟨txn, htxn, hattached, hdoomed⟩ := htranslated.doomed hwrites
    have hsome : translated.2 ≠ [] := by
      obtain ⟨-, -, -, other, hother, -⟩ := hdoomed
      exact ne_nil_of_mem hother
    -- the same draws up to here, and only failures from here on
    let faults : ℕ → Status := fun tick =>
      if tick < s₁.tick then none else some .eio
    have hreplay : exec (resumeAlone (resumeAmu (env.withFaults faults)) (env.withFaults faults))
        (translateAll (env.withFaults faults) txns) s = .done (translated, s₁) := by
      rw [hcalm] at hfirst
      exact (replays_translateAll txns s _ _ hfirst).2 fun tick _ hlow => (if_pos hlow).symm
    have hkept := hkeeps faults
    rw [KeepsBatch, amuDispatch, exec_bind, hreplay] at hkept
    have hrest := wp_alone.mpr hkept
    obtain ⟨error, tick, hdone⟩ := wp_dispatched_fails htranslated hsome
      (if_neg (lt_irrefl _)) hrest
    exact htranslated.not_kept hdoomed (hdone (some_ne_none error) txn htxn hattached)

def benchPageRead (lpa : ℕ) : Txn ℕ where
  type := .read
  nsid := 1
  lpa := lpa
  bitmap := fullBitmap
  data := fun _ => 0
  offset := 0
  length := 16384

/-- Reads that come before everything else are the only transactions that a
failing batch is safe for. -/
theorem keepsBatch_iff {txns : List (Txn D)} (hset : Settled env.cfg.geo s.back used pages)
    (hmarks : ∀ addr, Invalid s.back.planes addr → addr ∈ used)
    (hpages : ∀ txn ∈ txns, getMvpn txn.lpa ∈ pages txn.nsid)
    (hready : ∀ txn ∈ txns, txn.ppaReady = false)
    (hvalid : ∀ txn ∈ txns, (s.back.domains txn.nsid).attached →
      (s.back.lookup txn.nsid txn.lpa).ppa ≠ noPpa → ¬Invalid s.back.planes
        (ppaToAddress env.cfg.geo (s.back.lookup txn.nsid txn.lpa).ppa)) :
    (WritesBlocked s.back txns → ∀ faults, KeepsBatch (env.withFaults faults) s txns) ∧
    (Returns (env.withFaults fun _ => none) s txns →
      (∀ faults, KeepsBatch (env.withFaults faults) s txns) → WritesBlocked s.back txns) := by
  constructor
  · intro hblocked faults
    exact keepsBatch_of_writesBlocked hset hmarks hpages hready hvalid hblocked
  · exact writesBlocked_of_keepsBatch hset hpages

end Writes

theorem keepsBatch_iff_bench :
    WritesBlocked (benchSys (.fresh 2 1 .cwdp)).back [benchPageRead 5, benchPageRead 6] ∧
      ∀ faults, KeepsBatch (benchDevice.withFaults faults) (benchSys (.fresh 2 1 .cwdp))
        [benchPageRead 5, benchPageRead 6] := by
  have hset : Settled benchDevice.cfg.geo (benchSys (.fresh 2 1 .cwdp)).back ∅ fun _ => {0} :=
    benchSys_settled
  have hunmarked : ∀ addr, ¬Invalid (benchSys (.fresh 2 1 .cwdp)).back.planes addr :=
    not_invalid_of_unmarked benchPlanes_unmarked
  have hblocked : WritesBlocked (benchSys (.fresh 2 1 .cwdp)).back
      [benchPageRead 5, benchPageRead 6] :=
    .inr ⟨rfl, .inr ⟨rfl, trivial⟩⟩
  exact ⟨hblocked, (keepsBatch_iff hset (fun addr hinvalid =>
    absurd hinvalid (hunmarked addr)) (by decide) (by decide)
    (fun _ _ _ _ => hunmarked _)).1 hblocked⟩

/-- Overwriting a page whose new copy cannot be programmed: the old copy was
given up before and the new one is counted invalid afterwards. -/
theorem not_keepsBatch :
    ∃ result s, exec (resumeAlone (resumeAmu benchDevice) benchDevice)
        (amuDispatch benchDevice [benchWrite 5]) (benchSys (.fresh 2 1 .cwdp)) = .done (result, s) ∧
      ¬KeepsBatch (benchDevice.withFaults fun tick =>
          if tick < 3 then none else some .eio) s [benchWrite 5] := by
  refine ⟨_, _, rfl, ?_⟩
  intro hkeeps
  have hkept := hkeeps (by decide) (benchWrite 5) mem_cons_self rfl
  rcases hkept with ⟨-, hnone⟩ | ⟨-, hvalid, -⟩
  · exact absurd hnone (by decide)
  · exact hvalid (by decide)

end Soda
