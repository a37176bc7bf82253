import Soda.Ftl.Translation

/-!
# The mapping as a plain map

`get_ppa` reads the mapping of a domain and `alloc_page_for_write` changes it
at one logical page.  Sequences of these two operations therefore behave like
reads and writes of a plain map, as long as all the translation pages they
touch fit in the cache.
-/

namespace Soda

variable {D : Type}

open Function Prog Sys AmDomain List Finset BitVec Txn XlatePcache

theorem getMvpn_slot_inj {left right : ℕ} (hmvpn : getMvpn left = getMvpn right)
    (hslot : getMvpnSlot left = getMvpnSlot right) : left = right := by
  rw [getMvpn, getMvpn] at hmvpn
  rw [getMvpnSlot, getMvpnSlot] at hslot
  rw [← Nat.div_add_mod left xlateEntsPerPage, hmvpn, hslot, Nat.div_add_mod right xlateEntsPerPage]

/-! ### Read-modify-write -/

/-- The transaction after `update_read` has filled in what the old page
`sectors` holds and the transaction does not write. -/
def Txn.merged (txn : Txn D) (entry : XlateEntry) (sectors : ℕ → D) : Txn D :=
  if entry.ppa ≠ noPpa ∧ entry.bitmap &&& txn.bitmap ≠ entry.bitmap then
    let bitmap := entry.bitmap &&& ~~~ txn.bitmap
    let offset := min txn.offset (lowestSector bitmap <<< sectorShift)
    { txn with
      data := overlay bitmap sectors txn.data
      bitmap := txn.bitmap ||| bitmap
      offset := offset
      length := 2 ^ flashPgShift - offset }
  else txn

section Merged

variable (txn : Txn D) (entry : XlateEntry) (sectors : ℕ → D)

@[simp]
theorem nsid_merged : (txn.merged entry sectors).nsid = txn.nsid := by
  rw [merged]
  split <;> rfl

@[simp]
theorem addr_merged : (txn.merged entry sectors).addr = txn.addr := by
  rw [merged]
  split <;> rfl

@[simp]
theorem type_merged : (txn.merged entry sectors).type = txn.type := by
  rw [merged]
  split <;> rfl

end Merged

theorem and_not_ne_zero {left right : PageBitmap}
    (hne : left &&& right ≠ left) : left &&& ~~~ right ≠ 0 := by
  intro hzero
  apply hne
  apply eq_of_getLsbD_eq
  intro i hi
  have hbit := congrArg (fun bitmap => bitmap.getLsbD i) hzero
  simp only [getLsbD_and, getLsbD_not, hi, decide_true,
    Bool.true_and, ofNat_eq_ofNat, getLsbD_zero] at hbit
  rw [getLsbD_and]
  cases hleft : left.getLsbD i
  · rfl
  · simpa [hleft] using hbit

/-- The planes after the old page of an entry has been counted invalid. -/
def retired (g : Geometry) (planes : Planes) (entry : XlateEntry) : Planes :=
  if entry.ppa ≠ noPpa then bmInvalidatePage planes (ppaToAddress g entry.ppa)
  else planes

theorem BmInv.retired {g : Geometry} {planes : Planes}
    {used : Set FlashAddress} (hbm : BmInv g planes used)
    (entry : XlateEntry) : BmInv g (retired g planes entry) used := by
  rw [Soda.retired]
  split
  · exact hbm.invalidatePage _
  · exact hbm

/-! ### The two operations -/

section Alone

variable {s : Sys D (Backend D)} {nsid page tick : ℕ} {domain : AmDomain} {planes : Planes}
  {flash : ℕ → PageData D} {env : Env D} {tolerated : Fault → Prop} {stuck : Prop}

variable {txn : Txn D} {entry : XlateEntry} {post : Status × Txn D → Sys D (Backend D) → Prop}
  {rules : Rules (Sys D (Backend D)) Wait (Answer D) Fault}

theorem wp_release (hmutex : (domain.pcache.pages page).mutex = ⟨some s.current, []⟩)
    (hpin : (domain.pcache.pages page).pinCount = 1) {post : Unit → Sys D (Backend D) → Prop}
    (hpost : ∀ lru, post () (s.amu nsid (domain.setPage page
      { domain.pcache.pages page with mutex := ⟨none, []⟩, pinCount := 0 } lru)
      planes flash tick)) :
    wp rules (unlockXpg nsid page) (fun _ middle => wp rules (xpcUnpin nsid page) post middle)
      (s.amu nsid domain planes flash tick) := by
  rw [wp_unlockXpg hmutex, wp_xpcUnpin (by simp [hpin]), setPage_setPage, pages_setPage_self, hpin]
  exact hpost _

theorem wp_allocPage {forGc forMapping : Bool}
    (htolerated : rules.onFault .nullFrontier) {addr : PlaneAddr} {owner : ℕ}
    {post : FlashAddress → Sys D (Backend D) → Prop} (hpost : ∀ result planes',
      bmAllocPage env.cfg.geo planes owner addr forGc forMapping = some (result, planes') →
      post result (s.amu nsid domain planes' flash tick)) :
    wp rules (allocPage env owner addr forGc forMapping) post
      (s.amu nsid domain planes flash tick) := by
  rw [allocPage, wp_bind, wp_get, planes_amu]
  cases halloc : bmAllocPage env.cfg.geo planes owner addr forGc forMapping with
  | none => exact htolerated
  | some allocated => exact hpost allocated.1 allocated.2 halloc

/-- A page that is one of at most `capacity` pages is cached or finds room. -/
theorem AmDomain.Inv.room {holder : ℕ → Option Tid} {pages : Finset ℕ}
    {mvpn : ℕ} (hinv : domain.Inv flash holder)
    (hcached : ∀ wanted, (domain.pcache.find wanted).isSome → wanted ∈ pages)
    (hmem : mvpn ∈ pages) (hcard : pages.card ≤ domain.pcache.capacity) :
    (domain.pcache.find mvpn).isSome ∨ domain.pcache.size < domain.pcache.capacity := by
  by_cases hfind : (domain.pcache.find mvpn).isSome
  · exact .inl hfind
  · right
    let cached := domain.pcache.tree.map fun page => (domain.pcache.pages page).mvpn
    have hnodup : cached.Nodup := by
      rw [List.Nodup, pairwise_map]
      exact hinv.sorted.imp fun hlt => hlt.ne
    have hsubset : insert mvpn cached.toFinset ⊆ pages := by
      intro wanted hwanted
      rcases mem_insert.mp hwanted with rfl | hwanted
      · exact hmem
      · obtain ⟨page, hpage, rfl⟩ := mem_map.mp (mem_toFinset.mp hwanted)
        apply hcached
        rw [find_of_mem hinv.sorted hpage]
        rfl
    have hnotMem : mvpn ∉ cached.toFinset := by
      intro hcontra
      obtain ⟨page, hpage, rfl⟩ := mem_map.mp (mem_toFinset.mp hcontra)
      rw [find_of_mem hinv.sorted hpage] at hfind
      exact hfind rfl
    have hle := card_le_card hsubset
    rw [card_insert_of_notMem hnotMem, toFinset_card_of_nodup hnodup,
      length_map, ← hinv.size_eq] at hle
    omega

variable (hidle : s.back.outstanding = [])
include hidle

theorem wp_updateRead [Zero D] (hppa : entry.ppa ≠ noPpa)
    (hbitmap : entry.bitmap &&& txn.bitmap ≠ entry.bitmap)
    (hfail : env.Fails → ∀ error tick', post (some error, txn)
      (s.amu nsid domain planes flash tick'))
    (hpost : ∀ tick', post (none, txn.merged entry (flash entry.ppa).sector)
      (s.amu nsid domain planes flash tick')) :
    wp (aloneRules env tolerated stuck) (updateRead env txn entry) post
      (s.amu nsid domain planes flash tick) := by
  simp only [updateRead, wp_bind, wp_assert, hppa, ne_eq, not_false_eq_true,
    decide_true, if_true, and_not_ne_zero hbitmap, wp_allocMem_amu, wp_ite, decide_eq_true_eq]
  by_cases hbuffer : env.faults tick = none
  · rw [if_pos hbuffer, wp_amuSubmit_amu hidle]
    by_cases hread : env.faults (tick + 1) = none
    · simp only [hread, if_true, wp_await, onBlock_zdma_amu]
      by_cases hcopy : env.faults (tick + 1 + 1) = none
      · simp only [hcopy, if_true, wp_pure]
        have hmerged := hpost (tick + 1 + 1 + 1)
        rw [merged, if_pos ⟨hppa, hbitmap⟩] at hmerged
        exact hmerged
      · rw [if_neg hcopy, wp_pure]
        cases hstatus : env.faults (tick + 1 + 1) with
        | none => exact absurd hstatus hcopy
        | some error => exact hfail ⟨_, hcopy⟩ error _
    · rw [if_neg hread, wp_pure, if_neg hread]
      cases hstatus : env.faults (tick + 1) with
      | none => exact absurd hstatus hread
      | some error => exact hfail ⟨_, hread⟩ error _
  · rw [if_neg hbuffer]
    exact hfail ⟨_, hbuffer⟩ .enomem _

theorem wp_retireOldPage [Zero D]
    (hfail : env.Fails → entry.ppa ≠ noPpa → ∀ error tick',
      post (some error, txn) (s.amu nsid domain planes flash tick')) (hpost : ∀ tick',
      post (none, txn.merged entry (flash entry.ppa).sector)
        (s.amu nsid domain (retired env.cfg.geo planes entry) flash tick')) :
    wp (aloneRules env tolerated stuck) (retireOldPage env txn entry) post
      (s.amu nsid domain planes flash tick) := by
  rw [retireOldPage, wp_ite]
  by_cases hppa : entry.ppa ≠ noPpa
  · rw [retired, if_pos hppa] at hpost
    simp only [if_pos hppa, wp_ite, wp_bind]
    by_cases hbitmap : entry.bitmap &&& txn.bitmap ≠ entry.bitmap
    · rw [if_pos hbitmap]
      apply wp_updateRead hidle hppa hbitmap
      · intro hfails error tick'
        rw [if_neg (Option.some_ne_none error)]
        exact hfail hfails hppa error tick'
      · intro tick'
        simp only [if_true, invalidatePpa, wp_modify, wp_pure, setPlanes_amu, planes_amu]
        exact hpost _
    · have hmerged : txn.merged entry (flash entry.ppa).sector = txn := by
        rw [merged, if_neg (fun hboth => hbitmap hboth.2)]
      rw [hmerged] at hpost
      simp only [if_neg hbitmap, if_true, invalidatePpa, wp_modify, wp_pure,
        setPlanes_amu, planes_amu]
      exact hpost _
  · have hmerged : txn.merged entry (flash entry.ppa).sector = txn := by
      rw [merged, if_neg (fun hboth => hppa hboth.1)]
    rw [retired, if_neg hppa, hmerged] at hpost
    rw [if_neg hppa, wp_pure]
    exact hpost _

/-- `get_ppa` answers with the mapping and leaves it as it is. -/
theorem wp_getPpa (hinv : domain.Inv flash unheld) {lpa : ℕ}
    (hroom : (domain.pcache.find (getMvpn lpa)).isSome ∨
      domain.pcache.size < domain.pcache.capacity)
    {post : Status × XlateEntry → Sys D (Backend D) → Prop}
    (hdirectory : ¬getMvpn lpa < domain.gtd.length → tolerated .directoryBounds)
    (hfault : env.Fails → tolerated .nullPointer ∧ tolerated .assertion)
    (hmemory : env.Fails → ∀ tick', post (some .enomem, ⟨noPpa, 0⟩)
      (s.amu nsid domain planes flash tick')) (hpost : ∀ domain' tick',
      domain.Next domain' flash unheld (getMvpn lpa) (domain.lookup flash) →
      post (none, domain.lookup flash lpa) (s.amu nsid domain' planes flash tick')) :
    wp (aloneRules env tolerated stuck) (getPpa env nsid lpa) post
      (s.amu nsid domain planes flash tick) := by
  rw [getPpa, wp_bind]
  apply wp_getTranslationPage hidle hinv hroom hdirectory
  · intro hfails _
    exact (hfault hfails).1
  · intro hfails _ tick'
    exact hmemory hfails tick'
  · -- nobody has pinned the page, and unpinning it stops the processor
    intro hfails _ page domain' tick' hpin
    simp only [if_true, wp_bind, wp_get, xpg_amu, wp_pure, unlockXpg,
      wp_modify, modifyXpg_amu, xpcUnpin, wp_assert, current_amu,
      pages_setPage_self, hpin, lt_irrefl, decide_false, Bool.false_eq_true, if_false]
    exact (hfault hfails).2
  intro page domain' tick' hfetched
  simp only [if_true, wp_bind, wp_get, xpg_amu, wp_pure, hfetched.entries_eq rfl]
  apply wp_release
  · rw [hfetched.inv.mutex_eq page hfetched.mem, update_self]
  · rw [hfetched.inv.pin_eq page hfetched.mem, update_self]
    rfl
  · intro lru
    refine hpost _ _ (hfetched.release _ _ ?_ (fun hclean => ⟨hclean, rfl⟩) lru)
    intro other
    split
    · rename_i hother
      exact (hfetched.entries_eq hother).symm
    · rfl

/-- `alloc_page_for_write` maps the logical page to a fresh physical page and
leaves the rest of the mapping as it is. -/
theorem wp_allocPageForWrite [Zero D]
    (hinv : domain.Inv flash unheld) (hroom : (domain.pcache.find (getMvpn txn.lpa)).isSome ∨
      domain.pcache.size < domain.pcache.capacity)
    (hcalm : env.Fails → (domain.pcache.find (getMvpn txn.lpa)).isSome ∧
      (domain.lookup flash txn.lpa).ppa = noPpa)
    (hdirectory : ¬getMvpn txn.lpa < domain.gtd.length → tolerated .directoryBounds)
    (hfrontier : tolerated .nullFrontier) {forGc : Bool} (hpost : ∀ addr planes' domain' tick',
      bmAllocPage env.cfg.geo (retired env.cfg.geo planes (domain.lookup flash txn.lpa)) txn.nsid
        txn.addr.planeAddr forGc false = some (addr, planes') →
      domain.Next domain' flash unheld (getMvpn txn.lpa) (update (domain.lookup flash) txn.lpa
          ⟨addressToPpa env.cfg.geo addr, (domain.lookup flash txn.lpa).bitmap |||
            (txn.merged (domain.lookup flash txn.lpa)
              (flash (domain.lookup flash txn.lpa).ppa).sector).bitmap⟩) →
      post (none, { txn.merged (domain.lookup flash txn.lpa)
          (flash (domain.lookup flash txn.lpa).ppa).sector with
          addr := addr, ppa := addressToPpa env.cfg.geo addr })
        (s.amu txn.nsid domain' planes' flash tick')) :
    wp (aloneRules env tolerated stuck) (allocPageForWrite env txn forGc) post
      (s.amu txn.nsid domain planes flash tick) := by
  have hcached : env.Fails → domain.pcache.find (getMvpn txn.lpa) ≠ none :=
    fun hfails => Option.isSome_iff_ne_none.mp (hcalm hfails).1
  rw [allocPageForWrite, wp_bind]
  apply wp_getTranslationPage hidle hinv hroom hdirectory
  · intro hfails hmiss
    exact absurd hmiss (hcached hfails)
  · intro hfails hmiss
    exact absurd hmiss (hcached hfails)
  · intro hfails hmiss
    exact absurd hmiss (hcached hfails)
  intro page domain' tick' hfetched
  simp only [wp_ite, if_true, wp_bind, wp_get, xpg_amu, wp_pure, hfetched.entries_eq rfl]
  apply wp_retireOldPage hidle
  · intro hfails hppa
    exact absurd (hcalm hfails).2 hppa
  intro tick''
  simp only [nsid_merged] at hpost
  simp only [if_true, nsid_merged, addr_merged]
  apply wp_allocPage hfrontier
  intro addr planes' halloc
  simp only [xpcUpdateMapping, wp_modify, modifyXpg_amu]
  apply wp_release
  · rw [pages_setPage_self, hfetched.inv.mutex_eq page hfetched.mem, update_self]
  · rw [pages_setPage_self, hfetched.inv.pin_eq page hfetched.mem, update_self]
    rfl
  · intro lru
    rw [setPage_setPage, pages_setPage_self, hfetched.entries_eq rfl]
    refine hpost addr planes' _ _ halloc
      (hfetched.release _ true ?_ (fun hclean => by simp at hclean) lru)
    intro other
    dsimp only
    by_cases hother : getMvpn other = getMvpn txn.lpa
    · rw [if_pos hother]
      by_cases hslot : getMvpnSlot other = getMvpnSlot txn.lpa
      · rw [getMvpn_slot_inj hother hslot, update_self, update_self]
      · have hne : other ≠ txn.lpa := fun heq => hslot (by rw [heq])
        rw [update_of_ne hne, update_of_ne hslot, hfetched.entries_eq hother]
    · have hne : other ≠ txn.lpa := fun heq => hother (by rw [heq])
      rw [if_neg hother, update_of_ne hne]

end Alone

/-! ### Sequences of operations -/

inductive XlateOp (D : Type)
  | lookup (lpa : ℕ)
  | alloc (txn : Txn D) (forGc : Bool)

def XlateOp.lpa : XlateOp D → ℕ
  | lookup lpa => lpa
  | alloc txn _ => txn.lpa

def runXlateOp [Zero D] (env : Env D) (nsid : ℕ) :
    XlateOp D → AmuM D (Status × ℕ)
  | .lookup lpa => do
      let (status, entry) ← getPpa env nsid lpa
      pure (status, entry.ppa)
  | .alloc txn forGc => do
      let (status, txn) ← allocPageForWrite env { txn with nsid := nsid } forGc
      pure (status, txn.ppa)

def runXlateOps [Zero D] (env : Env D) (nsid : ℕ) :
    List (XlateOp D) → AmuM D (List (Status × ℕ))
  | [] => pure []
  | op :: ops => do
      let answer ← runXlateOp env nsid op
      let answers ← runXlateOps env nsid ops
      pure (answer :: answers)

/-- The answers of a plain map: an allocation stores the page it returns and a
lookup finds the last page stored. -/
def PlainMap (map : ℕ → ℕ) : List (XlateOp D) → List (Status × ℕ) → Prop
  | [], [] => True
  | .lookup lpa :: ops, answer :: answers => answer = (none, map lpa) ∧ PlainMap map ops answers
  | .alloc txn _ :: ops, answer :: answers =>
    answer.1 = none ∧ PlainMap (update map txn.lpa answer.2) ops answers
  | _, _ => False

/-- A domain that was just created, with `pages` translation pages. -/
def AmDomain.fresh (pages capacity : ℕ) (scheme : PlaneAllocateScheme) : AmDomain :=
  ⟨true, pages * xlateEntsPerPage, scheme, List.replicate pages noPpa, init capacity⟩

theorem AmDomain.fresh_inv (pages capacity : ℕ) (scheme : PlaneAllocateScheme)
    (flash : ℕ → PageData D) : (fresh pages capacity scheme).Inv flash unheld := by
  constructor <;> simp [fresh, init]

theorem AmDomain.lookup_fresh (pages capacity : ℕ)
    (scheme : PlaneAllocateScheme) (flash : ℕ → PageData D) (lpa : ℕ) :
    (fresh pages capacity scheme).lookup flash lpa = ⟨noPpa, 0⟩ := by
  simp only [lookup, fresh, init, find, find?_nil, onFlash, getElem?_replicate]
  split <;> simp_all

section Run

variable [Zero D] {s : Sys D (Backend D)} {nsid : ℕ} {flash : ℕ → PageData D}
  {env : Env D} {tolerated : Fault → Prop} {stuck : Prop}

/-- A run keeps the cached mapping equal to the plain map. -/
theorem wp_runXlateOps (hreliable : env.Reliable)
    (hidle : s.back.outstanding = []) (htolerated : tolerated .nullFrontier)
    {pages : Finset ℕ} (ops : List (XlateOp D))
    (hpages : ∀ op ∈ ops, getMvpn op.lpa ∈ pages) {domain : AmDomain}
    {planes : Planes} {tick : ℕ} {map : ℕ → ℕ} (hinv : domain.Inv flash unheld)
    (hmap : ∀ lpa, (domain.lookup flash lpa).ppa = map lpa)
    (hcached : ∀ wanted, (domain.pcache.find wanted).isSome → wanted ∈ pages)
    (hbound : ∀ mvpn ∈ pages, mvpn < domain.gtd.length)
    (hcard : pages.card ≤ domain.pcache.capacity) :
    wp (aloneRules env tolerated stuck) (runXlateOps env nsid ops)
      (fun answers _ => PlainMap map ops answers) (s.amu nsid domain planes flash tick) := by
  induction ops generalizing domain planes tick map with
  | nil => trivial
  | cons op ops ih =>
    have hop := hpages op mem_cons_self
    have hrest := fun other hother => hpages other (.tail op hother)
    have hroom := hinv.room hcached hop hcard
    rw [runXlateOps, wp_bind]
    -- the induction hypothesis, at the domain that the operation leaves
    have hnext : ∀ domain' planes' tick' map' mapping,
        domain.Next domain' flash unheld (getMvpn op.lpa) mapping →
        (∀ lpa, (mapping lpa).ppa = map' lpa) →
        wp (aloneRules env tolerated stuck) (runXlateOps env nsid ops)
          (fun answers _ => PlainMap map' ops answers)
          (s.amu nsid domain' planes' flash tick') := by
      intro domain' planes' tick' map' mapping hdomain' hmapping
      apply ih hrest hdomain'.inv
      · rw [hdomain'.lookup_eq]
        exact hmapping
      · intro wanted hwanted
        rcases (hdomain'.find_isSome wanted).mp hwanted with hold | rfl
        · exact hcached wanted hold
        · exact hop
      · rw [hdomain'.rest_eq]
        exact hbound
      · rw [hdomain'.capacity_eq]
        exact hcard
    cases op with
    | lookup lpa =>
      rw [runXlateOp, wp_bind]
      apply wp_getPpa hidle hinv hroom
      · intro hout
        exact absurd (hbound _ hop) hout
      · intro hfails
        exact absurd hfails hreliable.not_fails
      · intro hfails
        exact absurd hfails hreliable.not_fails
      intro domain' tick' hdomain'
      rw [wp_pure, wp_bind]
      refine wp_mono (hnext _ _ _ _ _ hdomain' hmap) ?_
      intro answers _ hanswers
      refine ⟨?_, hanswers⟩
      rw [hmap]
      rfl
    | alloc txn forGc =>
      rw [runXlateOp, wp_bind]
      refine wp_allocPageForWrite hidle hinv ?_ ?_ ?_ htolerated ?_
      · exact hroom
      · intro hfails
        exact absurd hfails hreliable.not_fails
      · intro hout
        exact absurd (hbound _ hop) hout
      intro addr planes' domain' tick' _ hdomain'
      rw [wp_pure, wp_bind]
      refine wp_mono (hnext _ _ _ (update map txn.lpa
        (addressToPpa env.cfg.geo addr)) _ hdomain' ?_) ?_
      · intro lpa
        by_cases hsame : lpa = txn.lpa
        · rw [hsame, update_self, update_self]
        · rw [update_of_ne hsame, update_of_ne hsame, hmap]
      · intro answers _ hanswers
        exact ⟨rfl, hanswers⟩

end Run

def benchPlanes : Planes :=
  match bmInit benchGeometry benchEnv ⟨none, none⟩ false false with
  | some (planes, _) => planes
  | none => fun _ => PlaneAllocator.init benchGeometry

/-- The device after its first start, with the same domain for every
namespace. -/
def benchSys (domain : AmDomain) : Sys ℕ (Backend ℕ) where
  cache := ⟨2, 0, fun _ => ⟨0, 0, 0, .empty, 0, {}, fun _ => 0⟩, 0, [], []⟩
  back :=
    { domains := fun _ => domain
      planes := benchPlanes
      flash := fun _ => .user fun _ => 0
      outstanding := []
      manifest := ⟨Bitmap.zero 32, Bitmap.zero 32, fun _ => ⟨0, 0, 0⟩⟩
      files := ⟨⟨none, none⟩, none, fun _ => none⟩ }
  current := 0
  flusher := {}
  tick := 0
  log := []

def benchWrite (lpa : ℕ) : Txn ℕ where
  type := .write
  nsid := 1
  lpa := lpa
  bitmap := 1
  data := fun _ => 7
  offset := 0
  length := 4096

end Soda
