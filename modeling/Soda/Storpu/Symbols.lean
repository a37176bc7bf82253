import Soda.Core.Llist

/-!
# Symbols of shared objects

Lookup in the hash table of an object.  The linker fills the table with the ELF
hash of 32 bits, while `ldso_elf_hash` keeps 64.
-/

namespace Soda.Storpu

open List

/-- The loop of `ldso_elf_hash` over an unsigned integer of `w` bits. -/
def elfHash (w : ℕ) (name : List UInt8) : BitVec w :=
  name.foldl (fun h c =>
    let h := h <<< 4 + BitVec.ofNat w c.toNat
    let g := h &&& BitVec.ofNat w 0xf0000000
    if g ≠ 0 then h ^^^ g ^^^ g >>> 24 else h) 0

def ldsoElfHash (name : List UInt8) : BitVec 64 := elfHash 64 name

/-- `undef` is `st_shndx == SHN_UNDEF` and `func` the type `STT_FUNC`; `name` has
the bytes before the null. -/
structure ElfSym where
  name : List UInt8
  undef : Bool
  value : ℕ
  func : Bool

/-- An undefined function with a value stands for the entry in the PLT of its
object, which counts as a definition outside of the PLT. -/
def ElfSym.Defines (inPlt : Bool) (sym : ElfSym) : Prop :=
  ¬(sym.undef = true ∧ (inPlt = true ∨ sym.value = 0 ∨ sym.func = false))

instance (inPlt : Bool) (sym : ElfSym) : Decidable (sym.Defines inPlt) :=
  inferInstanceAs (Decidable (¬_))

/-- The parts of `so_info` that come from `DT_HASH` and `DT_SYMTAB`. -/
structure SymbolTable where
  nbuckets : ℕ
  nchains : ℕ
  buckets : ℕ → ℕ
  chains : ℕ → ℕ
  symtab : ℕ → ElfSym

/-- A symbol number as a pointer: number 0 ends a chain. -/
def symPointer : ℕ → Option ℕ
  | 0 => none
  | symnum + 1 => some (symnum + 1)

namespace SymbolTable

variable (so : SymbolTable) (name : List UInt8) (inPlt : Bool)

/-- The loop from `symnum` on, `none` where `rounds` are not enough. -/
def lookupFrom : ℕ → ℕ → Option (Option ElfSym)
  | _, 0 => some none
  | 0, _ => none
  | rounds + 1, symnum =>
    let sym := so.symtab symnum
    if sym.name ≠ name then lookupFrom rounds (so.chains symnum)
    else if ¬sym.Defines inPlt then lookupFrom rounds (so.chains symnum)
    else some (some sym)

def ldsoLookupSymbolObj (rounds : ℕ) (hash : BitVec 64) : Option (Option ElfSym) :=
  if so.nbuckets = 0 then some none
  else so.lookupFrom name inPlt rounds (so.buckets (hash.toNat % so.nbuckets))

/-- The symbols that count as a definition of the name. -/
def IsDef (symnum : ℕ) : Prop :=
  (0 < symnum ∧ symnum < so.nchains) ∧
    (so.symtab symnum).name = name ∧ (so.symtab symnum).Defines inPlt

/-- What a lookup should return: a definition of the name, null only without one. -/
def Finds : Option ElfSym → Prop
  | some sym => ∃ symnum, so.IsDef name inPlt symnum ∧ so.symtab symnum = sym
  | none => ∀ symnum, ¬so.IsDef name inPlt symnum

/-- A table as the linker makes it: the chain of each bucket ends and has exactly
the symbols whose hash of 32 bits belongs there. -/
structure Hashed : Prop where
  chain : ∀ bucket < so.nbuckets, ∃ nodes,
    Linked (symPointer ∘ so.chains) (symPointer (so.buckets bucket)) nodes ∧
      ∀ symnum, symnum ∈ nodes ↔ (0 < symnum ∧ symnum < so.nchains) ∧
        (elfHash 32 (so.symtab symnum).name).toNat % so.nbuckets = bucket
  stored : ∀ symnum, 0 < symnum ∧ symnum < so.nchains → 0 < so.nbuckets

variable {so}

theorem lookupFrom_zero (rounds : ℕ) : so.lookupFrom name inPlt rounds 0 = some none := by
  cases rounds <;> rfl

/-- The loop returns the first definition on its chain, after at most one round
for each symbol there. -/
theorem lookupFrom_eq_find {first : Option ℕ} {nodes : List ℕ}
    (hlinked : Linked (symPointer ∘ so.chains) first nodes) {symnum rounds : ℕ}
    (hfirst : symPointer symnum = first) (hrounds : nodes.length ≤ rounds) :
    so.lookupFrom name inPlt rounds symnum = some ((nodes.find? fun node =>
      (so.symtab node).name = name ∧ (so.symtab node).Defines inPlt).map so.symtab) := by
  induction hlinked generalizing symnum rounds with
  | nil =>
    cases symnum with
    | zero => exact lookupFrom_zero name inPlt rounds
    | succ => cases hfirst
  | @cons node nodes _ ih =>
    cases symnum with
    | zero => cases hfirst
    | succ symnum =>
      cases hfirst
      cases rounds with
      | zero => cases hrounds
      | succ rounds =>
        have htail := ih rfl (Nat.le_of_succ_le_succ hrounds)
        simp only [lookupFrom]
        by_cases hdef : (so.symtab (symnum + 1)).name = name ∧
            (so.symtab (symnum + 1)).Defines inPlt
        · rw [if_neg (not_not.mpr hdef.1), if_neg (not_not.mpr hdef.2), find?_cons,
            decide_eq_true hdef]
          rfl
        · rw [find?_cons, decide_eq_false hdef, ← htail]
          split_ifs with hname hdefines
          · rfl
          · exact absurd ⟨not_not.mp hname, hdefines⟩ hdef
          · rfl

/-- For a table of the linker the lookup ends with a definition if there is one
exactly when the hash of 64 bits selects the bucket of the hash of 32. -/
theorem ldsoLookupSymbolObj_finds_iff (hso : so.Hashed) :
    ∃ found least, (∀ rounds ≥ least,
        so.ldsoLookupSymbolObj name inPlt rounds (ldsoElfHash name) = some found) ∧
      (so.Finds name inPlt found ↔
        (ldsoElfHash name).toNat % so.nbuckets = (elfHash 32 name).toNat % so.nbuckets ∨
          ∀ symnum, ¬so.IsDef name inPlt symnum) := by
  rcases Nat.eq_zero_or_pos so.nbuckets with hzero | hbuckets
  · have hnone : ∀ symnum, ¬so.IsDef name inPlt symnum := fun symnum hdef =>
      (hso.stored symnum hdef.1).ne' hzero
    exact ⟨none, 0, fun rounds _ => if_pos hzero, iff_of_true hnone (.inr hnone)⟩
  obtain ⟨nodes, hlinked, hmem⟩ := hso.chain _ (Nat.mod_lt (ldsoElfHash name).toNat hbuckets)
  refine ⟨_, nodes.length, fun rounds hrounds =>
    (if_neg hbuckets.ne').trans (lookupFrom_eq_find name inPlt hlinked rfl hrounds), ?_⟩
  cases hfind : nodes.find? fun node =>
      (so.symtab node).name = name ∧ (so.symtab node).Defines inPlt with
  | some symnum =>
    have hdef := find?_some hfind
    rw [decide_eq_true_eq] at hdef
    have hnode := (hmem symnum).mp (mem_of_find?_eq_some hfind)
    exact iff_of_true ⟨symnum, ⟨hnode.1, hdef⟩, rfl⟩ (.inl (by rw [← hnode.2, hdef.1]))
  | none =>
    rw [find?_eq_none] at hfind
    refine ⟨.inr, fun hcond symnum hdef => ?_⟩
    rcases hcond with hhash | hnone
    · have hnode := (hmem symnum).mpr ⟨hdef.1, by rw [hdef.2.1, hhash]⟩
      exact hfind symnum hnode (decide_eq_true hdef.2)
    · exact hnone symnum hdef

/-- Three buckets and one defined symbol, in the bucket of its hash of 32 bits. -/
def single (name : List UInt8) : SymbolTable where
  nbuckets := 3
  nchains := 2
  buckets bucket := if bucket = (elfHash 32 name).toNat % 3 then 1 else 0
  chains _ := 0
  symtab _ := ⟨name, false, 4096, false⟩

theorem single_hashed : (single name).Hashed where
  chain bucket _ := by
    by_cases hbucket : bucket = (elfHash 32 name).toNat % 3
    · refine ⟨[1], ?_, fun symnum => ?_⟩
      · simp only [single, if_pos hbucket]
        exact .cons .nil
      · simp [single, hbucket]
        omega
    · refine ⟨[], ?_, fun symnum => ?_⟩
      · simp only [single, if_neg hbucket]
        exact .nil
      · simp [single, Ne.symm hbucket]
  stored _ _ := Nat.zero_lt_succ 2

theorem ldsoLookupSymbolObj_finds_single : ∃ found least, (∀ rounds ≥ least,
    (single [102]).ldsoLookupSymbolObj [102] true rounds (ldsoElfHash [102]) = some found) ∧
      ((single [102]).Finds [102] true found ↔
        (ldsoElfHash [102]).toNat % 3 = (elfHash 32 [102]).toNat % 3 ∨
          ∀ symnum, ¬(single [102]).IsDef [102] true symnum) :=
  ldsoLookupSymbolObj_finds_iff [102] true (single_hashed [102])

/-- The last byte of the name carries the hash of 64 bits to `0x100000002`. -/
theorem ldsoLookupSymbolObj_misses :
    let name := [255, 15, 15, 15, 15, 15, 18]
    (single name).Hashed ∧ (single name).IsDef name true 1 ∧
      ∀ rounds, (single name).ldsoLookupSymbolObj name true rounds (ldsoElfHash name) =
        some none := by
  refine ⟨single_hashed _, ⟨by decide, rfl, by decide⟩, fun rounds => ?_⟩
  rw [ldsoLookupSymbolObj, if_neg (by decide)]
  exact lookupFrom_zero _ true rounds

end SymbolTable

end Soda.Storpu
