import Soda.Ftl.BatchFailure
import Soda.Ftl.MappedStore

/-!
# Read-modify-write

A write of some sectors of a logical page goes to a fresh physical page, and
`update_read` fetches the other valid sectors from the old one.  The bitmap in
the mapping entry says which sectors are valid; a read of a page that was never
written sets bits in it too, for sectors that hold nothing in particular.  After
every transaction the physical page holds each sector that was ever written.
-/

namespace Soda

variable {D : Type}

open Function Prog Sys List BitVec Txn Store Backend AmDomain

/-! ### The merged transaction -/

section Merged

variable {txn : Txn D} {entry : XlateEntry} {old : ℕ → D} {sector : ℕ}

/-- A sector that the transaction writes. -/
theorem merged_written (hbit : txn.bitmap.getLsbD sector) :
    (txn.merged entry old).bitmap.getLsbD sector ∧
      (txn.merged entry old).data sector = txn.data sector := by
  rw [merged]
  split
  · simp only [getLsbD_or, hbit, Bool.true_or, true_and, overlay, getLsbD_and,
      getLsbD_not, Bool.not_true, Bool.and_false, Bool.false_eq_true, if_false]
  · exact ⟨hbit, rfl⟩

/-- A sector that the old page has and the transaction does not write. -/
theorem merged_kept (hppa : entry.ppa ≠ noPpa) (hbit : entry.bitmap.getLsbD sector)
    (hclear : ¬txn.bitmap.getLsbD sector) : (txn.merged entry old).data sector = old sector := by
  have hlt : sector < 64 := lt_of_getLsbD hbit
  have hpartial : entry.bitmap &&& txn.bitmap ≠ entry.bitmap := by
    intro hsame
    rw [← hsame, getLsbD_and, Bool.and_eq_true] at hbit
    exact hclear hbit.2
  have hclear' : txn.bitmap.getLsbD sector = false := Bool.eq_false_of_not_eq_true hclear
  rw [merged, if_pos ⟨hppa, hpartial⟩]
  simp only [overlay, getLsbD_and, getLsbD_not, hbit, hclear',
    hlt, decide_true, Bool.not_false, Bool.and_self, if_true]

end Merged

/-! ### One transaction on the store -/

/-- The pages that the address mapping unit accepts. -/
structure Backend.Serves (pages : ℕ → Finset ℕ) (back : Backend D)
    (nsid lpa : ℕ) : Prop where
  pos : 0 < nsid
  le_max : nsid ≤ namespaceMax
  attached : (back.domains nsid).attached
  bound : getMvpn lpa < (back.domains nsid).gtd.length
  cached : getMvpn lpa ∈ pages nsid

def Store.dispatch (store : Store D) (txn : Txn D) : Store D :=
  match txn.type with
  | .write => store.absorb txn
  | .read => store

section Mapped

variable [Zero D] {g : Geometry} {virgin : D → Prop} {pages : ℕ → Finset ℕ}
  {back : Backend D} {used : Set FlashAddress} {store : Store D} {txn : Txn D}
  {addr : FlashAddress} {planes' : Planes} {domain' : AmDomain}

omit [Zero D] in
theorem Backend.Serves.next {back back' : Backend D} {nsid lpa nsid' mvpn : ℕ}
    {entries : ℕ → XlateEntry} (hserves : back.Serves pages nsid lpa)
    (hdomains : back'.domains = update back.domains nsid' domain')
    (hnext : (back.domains nsid').Next domain' back.flash unheld mvpn entries) :
    back'.Serves pages nsid lpa := by
  have hsame : (back'.domains nsid).attached = (back.domains nsid).attached ∧
      (back'.domains nsid).gtd = (back.domains nsid).gtd := by
    rw [hdomains]
    by_cases hnsid : nsid = nsid'
    · rw [hnsid, update_self]
      exact ⟨hnext.attached_eq, hnext.gtd_eq⟩
    · rw [update_of_ne hnsid]
      exact ⟨rfl, rfl⟩
  constructor
  · exact hserves.pos
  · exact hserves.le_max
  · rw [hsame.1]
    exact hserves.attached
  · rw [hsame.2]
    exact hserves.bound
  · exact hserves.cached

variable (hmapped : Mapped g virgin pages back used store)
include hmapped

/-- Nothing is stored for a page that is not mapped. -/
theorem Mapped.store_eq_none
    {nsid lpa : ℕ} (hppa : (back.mapping nsid lpa).ppa = noPpa) (sector : ℕ) :
    store nsid lpa sector = none := by
  cases hvalue : store nsid lpa sector with
  | none => rfl
  | some value => exact absurd hppa (hmapped.holds nsid lpa sector value hvalue).mapped

/-- A logical page is mapped to a page that was never handed out and perhaps
programmed. -/
theorem Mapped.moved {store' : Store D} {entry : XlateEntry}
    {flash' : ℕ → PageData D} {nsid lpa : ℕ}
    (hattached : (back.domains nsid).attached) (hmvpn : getMvpn lpa ∈ pages nsid)
    (hrange : addr.InRange g) (hunused : addr ∉ used)
    (hbm : BmInv g planes' (insert addr used)) (hmarks : MarksFit g planes')
    (hppa : entry.ppa = addressToPpa g addr)
    (hnext : (back.domains nsid).Next domain' back.flash unheld (getMvpn lpa)
      (update (back.lookup nsid) lpa entry))
    (hflash : ∀ ppa, ppa ≠ entry.ppa → flash' ppa = back.flash ppa)
    (hother : ∀ other lpa', ¬(other = nsid ∧ lpa' = lpa) → store' other lpa' = store other lpa')
    (hholds : ∀ sector value, store' nsid lpa sector = some value →
      entry.bitmap.getLsbD sector ∧ (flash' entry.ppa).sector sector = value)
    (hblank : (∀ sector, store' nsid lpa sector = none) →
      ∀ sector, virgin ((flash' entry.ppa).sector sector)) :
    Mapped g virgin pages
      { back with
        domains := update back.domains nsid domain'
        planes := planes', flash := flash' } (insert addr used) store' := by
  have hsame : ∀ mppn ∈ (back.domains nsid).gtd, mppn ≠ noPpa → flash' mppn = back.flash mppn := by
    intro mppn hmppn _
    apply hflash
    rw [hppa]
    rw [← directory_of_attached hattached] at hmppn
    exact hmapped.ppa_ne (hmapped.directory nsid mppn hmppn) hrange hunused
  rw [hppa] at hflash
  have hextended := hmapped.extend hrange hunused hbm hmarks hflash
  have hlookup : lookup { back with planes := planes', flash := flash' } nsid =
        back.lookup nsid := by
    funext other
    exact congrFun (lookup_congr hsame) other
  have hnext' := hnext.congr hsame
  rw [← hlookup] at hnext'
  exact hextended.place hattached hmvpn hnext' hother (Set.mem_insert addr used) hppa hholds hblank

/-- The page that a write leaves. -/
theorem Mapped.written
    (hattached : (back.domains txn.nsid).attached) (hmvpn : getMvpn txn.lpa ∈ pages txn.nsid)
    (hrange : addr.InRange g) (hunused : addr ∉ used)
    (hbm : BmInv g planes' (insert addr used)) (hmarks : MarksFit g planes')
    (hvirgin : txn.bitmap = 0 → ∀ value, virgin value)
    (hnext : (back.domains txn.nsid).Next domain' back.flash unheld
      (getMvpn txn.lpa) (update (back.lookup txn.nsid) txn.lpa
        (placedEntry g txn (back.lookup txn.nsid txn.lpa) back.flash addr))) :
    Mapped g virgin pages
      { back with
        domains := update back.domains txn.nsid domain'
        planes := planes'
        flash := update back.flash (addressToPpa g addr)
          (.user (txn.placed g (back.lookup txn.nsid txn.lpa) back.flash
            addr).data) }
      (insert addr used) (store.absorb txn) := by
  have hmapping := mapping_of_attached hattached txn.lpa
  refine hmapped.moved hattached hmvpn hrange hunused hbm hmarks rfl hnext ?_ ?_ ?_ ?_
  · intro ppa hne
    exact update_of_ne hne _ _
  · intro other lpa' hne
    funext sector
    apply absorb_of_clear
    intro hpage
    rw [page, Prod.mk.injEq] at hpage
    exact absurd ⟨hpage.1.symm, hpage.2.symm⟩ hne
  · intro sector value hvalue
    rw [placedEntry, update_self, Txn.placed]
    simp only [PageData.sector, getLsbD_or, Bool.or_eq_true]
    by_cases hbit : txn.bitmap.getLsbD sector
    · rw [absorb, if_pos ⟨rfl, rfl, hbit⟩, Option.some.injEq] at hvalue
      obtain ⟨hvalid, hdata⟩ := merged_written hbit
      exact ⟨.inr hvalid, hdata.trans hvalue⟩
    · rw [absorb_of_clear fun _ => hbit] at hvalue
      have hhas := hmapped.holds txn.nsid txn.lpa sector value hvalue
      have hppa := hhas.mapped
      have hvalid := hhas.valid
      have hdata := hhas.data_eq
      rw [hmapping] at hppa hvalid hdata
      exact ⟨.inl hvalid, (merged_kept hppa hvalid hbit).trans hdata⟩
  · intro hnone sector
    apply hvirgin
    apply eq_of_getLsbD_eq
    intro bit hbit
    have hclear := hnone bit
    rw [absorb] at hclear
    split at hclear
    · cases hclear
    · rename_i hnot
      simp only [true_and, Bool.not_eq_true] at hnot
      rw [hnot]
      exact getLsbD_zero.symm

/-- A read of a page that is not mapped: it gets a physical page and nothing is
programmed. -/
theorem Mapped.allocated
    (hattached : (back.domains txn.nsid).attached) (hmvpn : getMvpn txn.lpa ∈ pages txn.nsid)
    (hunmapped : (back.lookup txn.nsid txn.lpa).ppa = noPpa)
    (hrange : addr.InRange g) (hunused : addr ∉ used)
    (hbm : BmInv g planes' (insert addr used)) (hmarks : MarksFit g planes')
    (hnext : (back.domains txn.nsid).Next domain' back.flash unheld
      (getMvpn txn.lpa) (update (back.lookup txn.nsid) txn.lpa
        (placedEntry g txn (back.lookup txn.nsid txn.lpa) back.flash addr))) :
    Mapped g virgin pages
      { back with
        domains := update back.domains txn.nsid domain'
        planes := planes' } (insert addr used) store := by
  rw [← mapping_of_attached hattached] at hunmapped
  refine hmapped.moved hattached hmvpn hrange hunused hbm hmarks rfl hnext
    (fun _ _ => rfl) (fun _ _ _ => rfl) ?_ ?_
  · intro sector value hvalue
    rw [hmapped.store_eq_none hunmapped] at hvalue
    cases hvalue
  · intro _ sector
    exact hmapped.fresh addr hrange hunused sector

end Mapped

/-! ### Dispatches -/

section Dispatch

variable [Zero D] {env : Env D} {virgin : D → Prop} {pages : ℕ → Finset ℕ} {s : Sys D (Backend D)}
  {used : Set FlashAddress} {store : Store D} {txn : Txn D} {tolerated : Fault → Prop}

/-- Flash works. -/
theorem wp_submitAll_one (hreliable : env.Reliable)
    (hidle : s.back.outstanding = []) (hready : txn.ppaReady = true)
    {post : Status × List (Txn D) → Sys D (Backend D) → Prop} (hread : txn.type = .read →
      post (none, [{ txn with data := fetched txn (s.back.flash txn.ppa) }])
        { s with tick := s.tick + 1 }) (hwrite : txn.type = .write → post (none, [txn])
      { s with
        tick := s.tick + 1
        back := { s.back with
          flash := update s.back.flash txn.ppa (.user txn.data) } }) :
    wp (aloneRules env tolerated False) (submitAll [txn]) post s := by
  rw [submitAll, if_pos hready, wp_bind, submitTxn]
  cases htype : txn.type with
  | read =>
    have hdone := hread htype
    simp only [wp_bind, wp_amuSubmit hidle, hreliable s.tick, if_true, wp_ite,
      wp_pure, submitAll, FlashOp.apply]
    rw [htype] at hdone
    exact hdone
  | write =>
    have hdone := hwrite htype
    simp only [wp_bind, wp_amuSubmit hidle, hreliable s.tick, if_true, wp_ite,
      wp_pure, submitAll, FlashOp.apply]
    exact hdone

/-- One transaction. -/
theorem wp_dispatchOne (hreliable : env.Reliable)
    (hmapped : Mapped env.cfg.geo virgin pages s.back used store)
    (hserves : s.back.Serves pages txn.nsid txn.lpa)
    (hvirgin : txn.bitmap = 0 → ∀ value, virgin value) :
    wp (aloneRules env (fun fault => fault = .nullFrontier) False) (amuDispatch env [txn])
      (fun result s' => result.1 = none ∧ (∀ nsid lpa, s.back.Serves pages nsid lpa →
          s'.back.Serves pages nsid lpa) ∧ ∃ used', Mapped env.cfg.geo virgin pages s'.back used'
          (store.dispatch txn)) s := by
  have hset := hmapped.settled
  have hcalm := hreliable.not_fails
  rw [amuDispatch, wp_bind, translateAll, wp_bind]
  apply wp_translateLpa hset hserves.cached
  · exact fun hfails => absurd hfails hcalm
  · exact fun hrange => absurd ⟨hserves.pos, hserves.le_max⟩ hrange
  · exact fun hbound => absurd hserves.bound hbound
  · rfl
  · exact fun hfails => absurd hfails hcalm
  · intro hdetached
    rw [hserves.attached] at hdetached
    cases hdetached
  · exact fun hfails => absurd hfails hcalm
  · -- a read of a page that is mapped
    intro domain' tick' hattached htype _ hnext
    have hidle : (s.amu txn.nsid domain' s.back.planes s.back.flash
      tick').back.outstanding = [] := hset.idle
    simp only [wp_ite, if_true, wp_bind, translateAll, wp_pure]
    apply wp_submitAll_one hreliable hidle rfl
    · intro _
      rw [if_pos rfl]
      refine ⟨trivial, fun nsid lpa hserved => hserved.next rfl hnext, used, ?_⟩
      rw [dispatch, htype]
      exact hmapped.located hattached hserves.cached hnext
    · intro hwrite
      rw [located, htype] at hwrite
      cases hwrite
  · -- a write, or a read of a page that is not mapped
    intro addr planes' domain' tick' hattached hblank halloc hnext
    obtain ⟨hunused, hrange, hbm⟩ := bmAllocPage_fresh (hset.bm.retired _) halloc
    have hmarks := (hset.marks.retired _).allocPage halloc
    have htype : (txn.placed env.cfg.geo (s.back.lookup txn.nsid txn.lpa)
        s.back.flash addr).type = txn.type := type_merged txn _ _
    have hidle : (s.amu txn.nsid domain' planes' s.back.flash
      tick').back.outstanding = [] := hset.idle
    simp only [wp_ite, if_true, wp_bind, translateAll, wp_pure]
    apply wp_submitAll_one hreliable hidle rfl
    · intro hread
      rw [htype] at hread
      rw [if_pos rfl]
      refine ⟨trivial, fun nsid lpa hserved => hserved.next rfl hnext, insert addr used, ?_⟩
      rw [dispatch, hread]
      exact hmapped.allocated hattached hserves.cached (hblank hread) hrange
        hunused hbm hmarks hnext
    · intro hwrite
      rw [htype] at hwrite
      rw [if_pos rfl]
      refine ⟨trivial, fun nsid lpa hserved => hserved.next rfl hnext, insert addr used, ?_⟩
      rw [dispatch, hwrite]
      exact hmapped.written hattached hserves.cached hrange hunused hbm hmarks hvirgin hnext

/-- Transactions one after another, with the return codes of their
dispatches. -/
def dispatchEach (env : Env D) : List (Txn D) → AmuM D (List Status)
  | [] => pure []
  | txn :: txns => do
      let (status, _) ← amuDispatch env [txn]
      let statuses ← dispatchEach env txns
      pure (status :: statuses)

theorem wp_dispatchEach (hreliable : env.Reliable) (txns : List (Txn D))
    (hmapped : Mapped env.cfg.geo (fun _ => True) pages s.back used store)
    (hserves : ∀ txn ∈ txns, s.back.Serves pages txn.nsid txn.lpa) :
    wp (aloneRules env (fun fault => fault = .nullFrontier) False) (dispatchEach env txns)
      (fun statuses s' => (∀ status ∈ statuses, status = none) ∧
        ∃ used', Mapped env.cfg.geo (fun _ => True) pages s'.back used'
          (txns.foldl dispatch store)) s := by
  induction txns generalizing s used store with
  | nil =>
    rw [dispatchEach, wp_pure]
    exact ⟨fun _ hmem => absurd hmem not_mem_nil, used, hmapped⟩
  | cons txn txns ih =>
    rw [dispatchEach, wp_bind]
    refine wp_mono (wp_dispatchOne hreliable hmapped
      (hserves txn mem_cons_self) fun _ _ => trivial) ?_
    rintro ⟨status, rest⟩ s' ⟨hstatus, hkept, used', hmapped'⟩
    rw [wp_bind]
    refine wp_mono (ih hmapped' ?_) ?_
    · intro other hother
      exact hkept _ _ (hserves other (.tail txn hother))
    · rintro statuses s'' ⟨hstatuses, hlast⟩
      rw [wp_pure]
      refine ⟨?_, hlast⟩
      intro other hother
      rcases mem_cons.mp hother with rfl | hother
      · exact hstatus
      · exact hstatuses other hother

/-- After any sequence of reads and partial writes on translation pages that
fit in the cache, the physical page of a logical page holds for every sector
that was written the data of the last write. -/
theorem dispatchEach_keeps_sectors (hreliable : env.Reliable)
    (hmapped : Mapped env.cfg.geo (fun _ => True) pages s.back used
      fun _ _ _ => none) (txns : List (Txn D))
    (hserves : ∀ txn ∈ txns, s.back.Serves pages txn.nsid txn.lpa) :
    (exec (resumeAlone (resumeAmu env) env) (dispatchEach env txns) s).Meets
      (fun fault => fault = .nullFrontier) False
      (fun statuses s' => (∀ status ∈ statuses, status = none) ∧ ∀ nsid lpa sector value,
          txns.foldl dispatch (fun _ _ _ => none) nsid lpa sector = some value →
          s'.back.Has nsid lpa sector value) := by
  rw [← wp_alone]
  refine wp_mono (wp_dispatchEach hreliable txns hmapped hserves) ?_
  rintro statuses s' ⟨hstatuses, used', hmapped'⟩
  exact ⟨hstatuses, hmapped'.holds⟩

end Dispatch

theorem benchSys_mapped :
    Mapped benchGeometry (fun _ => True) (fun _ => {0})
      (benchSys (fresh 2 1 .cwdp)).back ∅ fun _ _ _ => none where
  settled := benchSys_settled
  directory := by
    intro nsid mppn hmppn
    rw [directory_of_attached rfl] at hmppn
    exact .inl (eq_of_mem_replicate hmppn)
  placed := by
    intro nsid lpa
    rw [mapping_of_attached rfl]
    exact .inl (congrArg XlateEntry.ppa (lookup_fresh 2 1 .cwdp _ lpa))
  holds := by
    intro nsid lpa sector value hvalue
    cases hvalue
  blank := fun _ _ _ => .inr fun _ => trivial
  fresh := fun _ _ _ _ => trivial

/-- A read of a page that was never written, and two writes of its first
sector. -/
theorem dispatchEach_keeps_sectors_bench :
    (exec (resumeAlone (resumeAmu benchDevice) benchDevice)
      (dispatchEach benchDevice [benchPageRead 5, benchWrite 5, benchWrite 5])
      (benchSys (fresh 2 1 .cwdp))).Meets (fun fault => fault = .nullFrontier) False
      (fun statuses s' => (∀ status ∈ statuses, status = none) ∧ ∀ nsid lpa sector value,
          [benchPageRead 5, benchWrite 5, benchWrite 5].foldl dispatch
            (fun _ _ _ => none) nsid lpa sector = some value →
          s'.back.Has nsid lpa sector value) := by
  apply dispatchEach_keeps_sectors (fun _ => rfl) benchSys_mapped
  intro txn htxn
  have hlpa : txn.nsid = 1 ∧ txn.lpa = 5 := by
    simp only [mem_cons, not_mem_nil, or_false] at htxn
    rcases htxn with rfl | rfl | rfl <;> exact ⟨rfl, rfl⟩
  rw [hlpa.1, hlpa.2]
  exact ⟨by decide, by decide, rfl, by decide, by decide⟩

end Soda
