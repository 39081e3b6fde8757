import StackMachine.Proofs.Memory.Lending

/-!
# What can be seen of an allocator

The figures of an allocator are its counters and, for each size class of a pool, how many blocks are
cached and in use. They do not say which blocks are cached, in what order, and what is written in
them. That is never found out: a cached block is as good as any other of its class, since it is
filled with zeros before it is lent again.

## Main definitions

* `Allocator.Figures` and `Allocator.figures`: what can be seen of an allocator.
* `Allocator.Sound`: the blocks that an allocator has cached have the capacity of their class.
* `Allocator.Lending.Resembles`: two allocators with the same figures that have lent the same
  blocks.

## Main results

* `Allocator.figures_deallocateAll_of_perm`: in whatever order blocks are taken back, the figures
  afterwards are the same.
* `Allocator.Sound.allocate_congr`: allocators with the same figures give the same answer to a
  request.
* `Allocator.Lending.Resembles.serveAll`: and so they do to every sequence of requests.
-/

namespace StackMachine

/-- What can be seen of a size class. -/
structure SizeClass.Figures where
  /-- The capacity of its blocks. -/
  size : Nat
  /-- The number of returned blocks that it keeps. -/
  cached : Nat
  /-- The number of its blocks in use. -/
  outstanding : Nat

/-- What can be seen of a size class. -/
def SizeClass.figures (sizeClass : SizeClass) : SizeClass.Figures where
  size := sizeClass.size
  cached := sizeClass.cached.length
  outstanding := sizeClass.outstanding

/-- A block of the class comes back. -/
def SizeClass.Figures.takeBack (figures : SizeClass.Figures) : SizeClass.Figures where
  size := figures.size
  cached := figures.cached + 1
  outstanding := figures.outstanding - 1

namespace Allocator

/-- What can be seen of an allocator. -/
structure Figures where
  /-- What it has done so far. -/
  counts : AllocationCounts
  /-- The number of requests that are still considered, if it is bounded. -/
  ration : Option Nat := none
  /-- The number of blocks that a class may have in use, if there are classes. -/
  share : Option Nat := none
  /-- The size classes. -/
  classes : List SizeClass.Figures := []

/-- What can be seen of an allocator. -/
def figures : Allocator → Figures
  | pooled pool =>
    { counts := pool.counts
      share := some pool.blocksPerClass
      classes := pool.classes.map SizeClass.figures }
  | direct counts => { counts }
  | rationed requests counts => { counts, ration := some requests }

/-- The number of returned blocks that a size class keeps; none if there is no such class. -/
def cached : Allocator → Nat → Nat
  | pooled pool, index => pool.cachedIn index
  | direct _, _ => 0
  | rationed _ _, _ => 0

variable {a b : Allocator}

/-- The counters are among the figures. -/
theorem counts_eq_of_figures (h : a.figures = b.figures) : a.counts = b.counts := by
  have hcounts : ∀ allocator : Allocator, allocator.counts = allocator.figures.counts := by
    intro allocator
    cases allocator <;> rfl
  rw [hcounts, hcounts, h]

/-- So are the numbers of blocks in use. -/
theorem outstanding_eq_of_figures (h : a.figures = b.figures) : a.outstanding = b.outstanding := by
  have hshown : ∀ (allocator : Allocator) (index : Nat), allocator.outstanding index =
      (allocator.figures.classes[index]?.map (·.outstanding)).getD 0 := by
    intro allocator index
    cases allocator with
    | pooled pool =>
      simp only [outstanding, figures, List.getElem?_map, Option.map_map]
      rfl
    | direct | rationed => rfl
  funext index
  rw [hshown, hshown, h]

/-- So are the numbers of cached blocks. -/
theorem cached_eq_of_figures (h : a.figures = b.figures) : a.cached = b.cached := by
  have hshown : ∀ (allocator : Allocator) (index : Nat), allocator.cached index =
      (allocator.figures.classes[index]?.map (·.cached)).getD 0 := by
    intro allocator index
    cases allocator with
    | pooled pool =>
      simp only [cached, Pool.cachedIn, figures, List.getElem?_map, Option.map_map]
      cases pool.classes[index]? <;> rfl
    | direct | rationed => rfl
  funext index
  rw [hshown, hshown, h]

/-! ### Taking back -/

/-- A block comes back. -/
def Figures.takeBack (figures : Figures) (block : Block) : Figures :=
  { figures with
    counts := figures.counts.takeBack block.capacity
    classes := block.sizeClass.elim figures.classes
      fun index => figures.classes.modify index SizeClass.Figures.takeBack }

/-- Taking a block back changes the figures in a way that depends on nothing else. -/
theorem figures_deallocate (a : Allocator) (block : Block) :
    (a.deallocate block).figures = a.figures.takeBack block := by
  cases a with
  | direct | rationed =>
    cases hclass : block.sizeClass <;> simp [deallocate, figures, Figures.takeBack, hclass]
  | pooled pool =>
    simp only [deallocate, Pool.deallocate]
    split
    next hclass => simp [figures, Figures.takeBack, hclass]
    next index hclass =>
      have hmodify : (pool.classes.map SizeClass.figures).modify index SizeClass.Figures.takeBack =
          ((fun shown => (pool.classes.map SizeClass.figures).set index shown.takeBack) <$>
            pool.classes[index]?.map SizeClass.figures).getD
              (pool.classes.map SizeClass.figures) := by
        rw [List.modify_eq_set_getElem?, List.getElem?_map]
      simp only [figures, Figures.takeBack, hclass, Option.elim_some, hmodify]
      split
      next hnone => simp [hnone]
      next sizeClass hsome =>
        simp only [hsome, List.map_set]
        rfl

/-- It does not matter which of two blocks comes back first. -/
theorem Figures.takeBack_comm (figures : Figures) (first second : Block) :
    (figures.takeBack first).takeBack second = (figures.takeBack second).takeBack first := by
  have hcounts : (figures.counts.takeBack first.capacity).takeBack second.capacity =
      (figures.counts.takeBack second.capacity).takeBack first.capacity := by
    simp only [AllocationCounts.takeBack, AllocationCounts.mk.injEq, true_and, and_true]
    omega
  simp only [takeBack, hcounts, Figures.mk.injEq, true_and]
  cases first.sizeClass with
  | none => rfl
  | some index =>
    cases second.sizeClass with
    | none => rfl
    | some other =>
      simp only [Option.elim_some]
      -- Blocks of one class are counted alike, and those of two classes in different places.
      by_cases heq : index = other
      · rw [heq]
      · exact List.modify_modify_ne _ _ _ heq

theorem deallocateAll_append (a : Allocator) (blocks others : List Block) :
    a.deallocateAll (blocks ++ others) = (a.deallocateAll blocks).deallocateAll others :=
  List.foldl_append

theorem figures_deallocateAll (a : Allocator) (blocks : List Block) :
    (a.deallocateAll blocks).figures = blocks.foldl Figures.takeBack a.figures := by
  induction blocks generalizing a with
  | nil => rfl
  | cons block blocks ih =>
    rw [List.foldl_cons, ← figures_deallocate]
    exact ih _

/-- In whatever order blocks are taken back, the figures afterwards are the same. -/
theorem figures_deallocateAll_of_perm (a : Allocator) {blocks others : List Block}
    (h : blocks.Perm others) :
    (a.deallocateAll blocks).figures = (a.deallocateAll others).figures := by
  have : RightCommutative Figures.takeBack := ⟨Figures.takeBack_comm⟩
  rw [figures_deallocateAll, figures_deallocateAll, h.foldl_eq]

/-- Every block that is taken back is counted once. -/
theorem deallocations_deallocateAll (a : Allocator) (blocks : List Block) :
    (a.deallocateAll blocks).counts.deallocations = a.counts.deallocations + blocks.length := by
  induction blocks generalizing a with
  | nil => rfl
  | cons block blocks ih =>
    have hblock : (a.deallocate block).counts.deallocations = a.counts.deallocations + 1 := by
      rw [counts_deallocate]
      rfl
    have hblocks := ih (a.deallocate block)
    rw [hblock] at hblocks
    rw [List.length_cons]
    exact hblocks.trans (by omega)

end Allocator

/-! ### Lending -/

namespace Pool

variable {p q : Pool}

/-- Pools with the same figures serve a request from classes with the same figures, or both from
none. -/
theorem servedBy?_congr (hshare : p.blocksPerClass = q.blocksPerClass)
    (hclasses : p.classes.map SizeClass.figures = q.classes.map SizeClass.figures) (size : Nat) :
    p.servedBy? size = none ∧ q.servedBy? size = none ∨
      ∃ index first second, p.servedBy? size = some (index, first) ∧
        q.servedBy? size = some (index, second) ∧ first.figures = second.figures := by
  unfold servedBy?
  cases classFor? size with
  | none => exact .inl ⟨rfl, rfl⟩
  | some index =>
    have hclass : p.classes[index]?.map SizeClass.figures =
        q.classes[index]?.map SizeClass.figures := by
      rw [← List.getElem?_map, ← List.getElem?_map, hclasses]
    simp only [Option.bind_some]
    cases hp : p.classes[index]? with
    | none =>
      rw [hp] at hclass
      rw [Option.map_eq_none_iff.mp hclass.symm]
      exact .inl ⟨rfl, rfl⟩
    | some first =>
      rw [hp] at hclass
      obtain ⟨second, hq, hsame⟩ := Option.map_eq_some_iff.mp hclass.symm
      have hbusy : second.outstanding = first.outstanding :=
        congrArg SizeClass.Figures.outstanding hsame
      simp only [hq, Option.bind_some, hbusy, hshare]
      split
      · exact .inr ⟨index, first, second, rfl, rfl, hsame.symm⟩
      · exact .inl ⟨rfl, rfl⟩

/-- Pools with the same figures take the same from the host for a request. -/
theorem reservation?_congr (hshare : p.blocksPerClass = q.blocksPerClass)
    (hclasses : p.classes.map SizeClass.figures = q.classes.map SizeClass.figures) (size : Nat) :
    p.reservation? size = q.reservation? size := by
  unfold reservation?
  obtain ⟨hp, hq⟩ | ⟨index, first, second, hp, hq, hsame⟩ := servedBy?_congr hshare hclasses size
  · rw [hp, hq]
  · have hsize : first.size = second.size := congrArg SizeClass.Figures.size hsame
    have hcached : first.cached.length = second.cached.length :=
      congrArg SizeClass.Figures.cached hsame
    have hempty : first.cached = [] ↔ second.cached = [] := by
      rw [← List.length_eq_zero_iff, ← List.length_eq_zero_iff, hcached]
    simp only [hp, hq, hsize, hempty]

/-- Pools with the same figures grant the same block and have the same figures afterwards. -/
theorem granted_congr (h : (Allocator.pooled p).figures = (Allocator.pooled q).figures)
    (size : Nat) :
    (p.granted size).1 = (q.granted size).1 ∧
      (Allocator.pooled (p.granted size).2).figures =
        (Allocator.pooled (q.granted size).2).figures := by
  have hcounts : p.counts = q.counts := congrArg Allocator.Figures.counts h
  have hshare : p.blocksPerClass = q.blocksPerClass :=
    Option.some.inj (congrArg Allocator.Figures.share h)
  have hclasses : p.classes.map SizeClass.figures = q.classes.map SizeClass.figures :=
    congrArg Allocator.Figures.classes h
  unfold granted
  obtain ⟨hp, hq⟩ | ⟨index, first, second, hp, hq, hsame⟩ := servedBy?_congr hshare hclasses size
  · simp only [hp, hq, Allocator.figures, hcounts, hshare, hclasses, and_self]
  · have hsize : first.size = second.size := congrArg SizeClass.Figures.size hsame
    have hcached : first.cached.length = second.cached.length :=
      congrArg SizeClass.Figures.cached hsame
    have hbusy : first.outstanding = second.outstanding :=
      congrArg SizeClass.Figures.outstanding hsame
    simp only [hp, hq, Allocator.figures, hcounts, hshare, hclasses, hsize, hbusy, List.map_set,
      SizeClass.figures, List.length_tail, hcached, and_self]

end Pool

namespace Allocator

/-- What the allocator has cached has the capacity of its class. -/
def Sound : Allocator → Prop
  | pooled pool => pool.WellFormed
  | direct _ => True
  | rationed _ _ => True

variable {a b : Allocator} {host : Host} {size : Nat}

theorem IsFresh.sound (h : a.IsFresh) : a.Sound := by
  cases a with
  | pooled pool =>
    have hpool : pool = Pool.fresh pool.blocksPerClass := h
    rw [hpool]
    exact Pool.wellFormed_fresh _
  | direct | rationed => trivial

/-- Taking a block back leaves an allocator sound. -/
theorem Sound.deallocate (h : a.Sound) {block : Block} (hfits : block.FitsClass) :
    (a.deallocate block).Sound := by
  cases a with
  | pooled pool => exact Pool.WellFormed.deallocate h hfits
  | direct | rationed => trivial

theorem Sound.deallocateAll (h : a.Sound) {blocks : List Block}
    (hfits : ∀ block ∈ blocks, block.FitsClass) : (a.deallocateAll blocks).Sound := by
  induction blocks generalizing a with
  | nil => exact h
  | cons block blocks ih =>
    exact ih (h.deallocate (hfits block List.mem_cons_self)) fun other hother =>
      hfits other (List.mem_cons_of_mem _ hother)

/-- A block without a class fits. -/
theorem fitsClass_zeros (capacity size : Nat) : (Block.zeros capacity size none).FitsClass := by
  intro index hindex
  cases hindex

/-- What a pool does with a request: it refuses it and stays as it is, or it grants it. -/
theorem allocate_pooled {pool : Pool} (h : pool.WellFormed) (host : Host) (size : Nat) :
    (size = 0 ∨ pool.IsRefused host size) ∧
        (pooled pool).allocate host size = (none, pooled pool) ∨
      ¬(size = 0 ∨ pool.IsRefused host size) ∧
        (pooled pool).allocate host size =
          (some (pool.granted size).1, pooled (pool.granted size).2) := by
  rw [← Pool.allocate_eq_none_iff]
  simp only [allocate]
  cases hanswer : pool.allocate host size with
  | none => exact .inl ⟨rfl, rfl⟩
  | some answer =>
    obtain rfl := h.allocate_eq_some hanswer
    exact .inr ⟨Option.some_ne_none _, rfl⟩

/-- A block that does not come from a pool is made of zeros. -/
theorem lendFresh_spec {counts after : AllocationCounts} {block : Block}
    (h : lendFresh host counts size = some (block, after)) :
    block.FitsClass ∧ ∀ byte ∈ block.contents, byte = 0 := by
  obtain ⟨rfl, -⟩ := lendFresh_some h
  exact ⟨fitsClass_zeros size size, fun _ => Block.mem_contents_zeros⟩

/-- Serving a request leaves an allocator sound. The block that is lent has the capacity of its
class and is made of zeros. -/
theorem Sound.allocate (h : a.Sound) (host : Host) (size : Nat) :
    (a.allocate host size).2.Sound ∧
      ∀ block, (a.allocate host size).1 = some block →
        block.FitsClass ∧ ∀ byte ∈ block.contents, byte = 0 := by
  cases a with
  | pooled pool =>
    have hpool : pool.WellFormed := h
    obtain ⟨-, hanswer⟩ | ⟨-, hanswer⟩ := allocate_pooled hpool host size
    · rw [hanswer]
      exact ⟨hpool, fun block hblock => by cases hblock⟩
    · rw [hanswer]
      refine ⟨hpool.granted size, fun block hblock => ?_⟩
      obtain rfl := Option.some.inj hblock
      exact ⟨hpool.fitsClass_granted size, (hpool.granted_spec size).1⟩
  | direct counts =>
    simp only [Allocator.allocate]
    split
    next hlent =>
      refine ⟨trivial, fun block hblock => ?_⟩
      obtain rfl := Option.some.inj hblock
      exact lendFresh_spec hlent
    next => exact ⟨trivial, fun block hblock => by cases hblock⟩
  -- A rationed allocator is a direct one as long as its ration lasts.
  | rationed requests counts =>
    cases requests with
    | zero => exact ⟨trivial, fun block hblock => by cases hblock⟩
    | succ requests =>
      simp only [Allocator.allocate]
      split
      next hlent =>
        refine ⟨trivial, fun block hblock => ?_⟩
        obtain rfl := Option.some.inj hblock
        exact lendFresh_spec hlent
      next => exact ⟨trivial, fun block hblock => by cases hblock⟩

/-- Allocators with the same figures are both pools, or the same. -/
theorem pooled_or_eq (h : a.figures = b.figures) :
    (∃ p q, a = pooled p ∧ b = pooled q) ∨ a = b := by
  cases a with
  | pooled p =>
    cases b with
    | pooled q => exact .inl ⟨p, q, rfl, rfl⟩
    | direct | rationed => cases congrArg Figures.share h
  | direct counts =>
    cases b with
    | pooled => cases congrArg Figures.share h
    | direct => exact .inr (congrArg direct (congrArg Figures.counts h))
    | rationed => cases congrArg Figures.ration h
  | rationed requests counts =>
    cases b with
    | pooled => cases congrArg Figures.share h
    | direct => cases congrArg Figures.ration h
    | rationed others counts' =>
      obtain rfl : requests = others := Option.some.inj (congrArg Figures.ration h)
      exact .inr (congrArg (rationed requests) (congrArg Figures.counts h))

/-- Allocators with the same figures give the same answer to a request, down to the bytes of the
block, and have the same figures afterwards. -/
theorem Sound.allocate_congr (ha : a.Sound) (hb : b.Sound) (h : a.figures = b.figures)
    (host : Host) (size : Nat) :
    (a.allocate host size).1 = (b.allocate host size).1 ∧
      (a.allocate host size).2.figures = (b.allocate host size).2.figures := by
  obtain ⟨p, q, rfl, rfl⟩ | rfl := pooled_or_eq h
  · have hp : p.WellFormed := ha
    have hq : q.WellFormed := hb
    -- Both pools take the same from the host, so it refuses both or neither.
    have hrefused : p.IsRefused host size ↔ q.IsRefused host size := by
      unfold Pool.IsRefused
      rw [Pool.reservation?_congr (Option.some.inj (congrArg Figures.share h))
        (congrArg Figures.classes h)]
    obtain ⟨hno, hp⟩ | ⟨hyes, hp⟩ := allocate_pooled hp host size <;>
      obtain ⟨hno', hq⟩ | ⟨hyes', hq⟩ := allocate_pooled hq host size
    · rw [hp, hq]
      exact ⟨rfl, h⟩
    · exact absurd (hno.imp_right hrefused.mp) hyes'
    · exact absurd (hno'.imp_right hrefused.mpr) hyes
    · rw [hp, hq]
      obtain ⟨hblock, hfigures⟩ := Pool.granted_congr h size
      exact ⟨congrArg some hblock, hfigures⟩
  · exact ⟨rfl, rfl⟩

/-! ### Any sequence of requests -/

namespace Lending

/-- Two allocators with the same figures that have lent the same blocks. -/
structure Resembles (one other : Lending) : Prop where
  /-- The same blocks are lent. -/
  lent : one.lent = other.lent
  /-- The same can be seen. -/
  figures : one.allocator.figures = other.allocator.figures
  /-- What the first one has cached has the capacity of its class. -/
  sound_left : one.allocator.Sound
  /-- What the second one has cached has, too. -/
  sound_right : other.allocator.Sound
  /-- What is lent has the capacity of its class. -/
  fits : ∀ block ∈ one.lent, block.FitsClass

variable {one other : Lending}

/-- A request has the same answer on both sides, and the two resemble each other afterwards. A block
that is lent is made of zeros. -/
theorem Resembles.serve (h : one.Resembles other) (request : Request) :
    (one.serve request).1 = (other.serve request).1 ∧
      (one.serve request).2.Resembles (other.serve request).2 ∧
      ∀ block, (one.serve request).1 = some block → ∀ byte ∈ block.contents, byte = 0 := by
  obtain ⟨a, lent⟩ := one
  obtain ⟨b, lent'⟩ := other
  obtain ⟨hlent, hfigures, ha, hb, hfits⟩ := h
  dsimp only at hlent hfigures ha hb hfits
  subst hlent
  cases request with
  | lend host size =>
    obtain ⟨hanswer, hafter⟩ := ha.allocate_congr hb hfigures host size
    obtain ⟨hsound, hblock⟩ := ha.allocate host size
    refine ⟨hanswer, ⟨?_, hafter, hsound, (hb.allocate host size).1, ?_⟩,
      fun block hlent => (hblock block hlent).2⟩
    · exact congrArg (·.toList ++ lent) hanswer
    · intro block hmem
      rcases List.mem_append.mp hmem with hmem | hmem
      · exact (hblock block (Option.mem_toList.mp hmem)).1
      · exact hfits block hmem
  -- Writing changes the contents of a lent block, which the figures do not show.
  | write position bytes =>
    refine ⟨rfl, ⟨rfl, hfigures, ha, hb, fun block hmem => ?_⟩, fun block hlent => by cases hlent⟩
    obtain ⟨index, hindex⟩ := List.mem_iff_getElem?.mp hmem
    simp only [serve, List.getElem?_modify, Option.map_eq_map, Option.map_eq_some_iff] at hindex
    obtain ⟨before, hbefore, rfl⟩ := hindex
    have hbeforeFits := hfits before (List.mem_of_getElem? hbefore)
    split
    · exact hbeforeFits.overwritten bytes
    · exact hbeforeFits
  | giveBack position =>
    -- A position at which nothing was lent is ignored on both sides.
    simp only [serve]
    split
    next block hat =>
      have hblock := hfits block (List.mem_of_getElem? hat)
      refine ⟨rfl, ⟨rfl, ?_, ha.deallocate hblock, hb.deallocate hblock, fun other hmem => ?_⟩,
        fun block hlent => by cases hlent⟩
      · rw [figures_deallocate, figures_deallocate, hfigures]
      · exact hfits other (List.mem_of_mem_eraseIdx hmem)
    next => exact ⟨rfl, ⟨rfl, hfigures, ha, hb, hfits⟩, fun block hlent => by cases hlent⟩

/-- So does every sequence of requests. -/
theorem Resembles.serveAll (h : one.Resembles other) (requests : List Request) :
    (one.serveAll requests).1 = (other.serveAll requests).1 ∧
      ∀ block, some block ∈ (one.serveAll requests).1 → ∀ byte ∈ block.contents, byte = 0 := by
  induction requests generalizing one other with
  | nil => exact ⟨rfl, by simp [Lending.serveAll]⟩
  | cons request requests ih =>
    obtain ⟨hanswer, hnext, hzero⟩ := h.serve request
    obtain ⟨hanswers, hzeros⟩ := ih hnext
    rw [serveAll_cons, serveAll_cons]
    refine ⟨by rw [hanswer, hanswers], fun block hmem => ?_⟩
    rcases List.mem_cons.mp hmem with heq | hmem
    · exact hzero block heq.symm
    · exact hzeros block hmem

end Lending

end Allocator

end StackMachine
