import Mathlib.Data.List.Forall2
import LinkState.Proofs.LeastCost
import LinkState.Proofs.StoredNodes
import LinkState.Proofs.StubRouters

/-!
# Rearranged advertisements

The same advertisements may come in another order, and each may list its links or addresses in another
order. Databases that are built of them are `Database.Rearranged`, and that is a symmetric relation.
Where no router has two point-to-point links to one neighbour, such databases agree on everything that
a calculation looks up:

* `NodeKind.Rearranged.linkTo?_eq`: the link back to a neighbour is the same;
* `Database.Rearranged.mem_edges`: edges are the same, since an address leads to the router of least
  identifier, wherever that stands;
* `Database.Rearranged.leastCost_iff`: so paths cost the same;
* `Database.Rearranged.stubCheck_eq`: a stub router is one on either side.
-/

namespace LinkState

/-! ## 1. Rearranged nodes -/

/-- The same links or addresses in another order. -/
inductive NodeKind.Rearranged : NodeKind → NodeKind → Prop
  | router {links links' : List Link} (h : links.Perm links') : Rearranged (.router links) (.router links')
  | network {mask : Address} {attached attached' : List Address} (h : attached.Perm attached') :
      Rearranged (.network mask attached) (.network mask attached')

/-- No two point-to-point links name the same neighbour. -/
def OneLinkEach (links : List Link) : Prop := ((links.filter (·.type == .pointToPoint)).map (·.id)).Nodup

instance (links : List Link) : Decidable (OneLinkEach links) := inferInstanceAs (Decidable (List.Nodup _))

namespace NodeKind

theorem linkTo?_eq_some_iff {k : NodeKind} (hone : OneLinkEach k.links) {id : Address} {l : Link} :
    k.linkTo? id = some l ↔ l ∈ k.links ∧ l.type = .pointToPoint ∧ l.id = id := by
  have hfound : ∀ {f}, k.linkTo? id = some f → f ∈ k.links ∧ f.type = .pointToPoint ∧ f.id = id := fun hf => by
    have := List.find?_some hf
    rw [Bool.and_eq_true, beq_iff_eq, beq_iff_eq] at this
    exact ⟨List.mem_of_find?_eq_some hf, this⟩
  refine ⟨hfound, fun h => ?_⟩
  obtain ⟨hl, htype, hid⟩ := h
  obtain ⟨f, hf⟩ : ∃ f, k.linkTo? id = some f :=
    Option.isSome_iff_exists.1 (List.find?_isSome.2 ⟨l, hl, by simp [htype, hid]⟩)
  obtain ⟨hfl, hftype, hfid⟩ := hfound hf
  have hfl : f = l := List.inj_on_of_nodup_map hone (List.mem_filter.2 ⟨hfl, by simp [hftype]⟩)
    (List.mem_filter.2 ⟨hl, by simp [htype]⟩) (hfid.trans hid.symm)
  rw [hf, hfl]

namespace Rearranged

variable {k k' : NodeKind}

theorem symm (h : k.Rearranged k') : k'.Rearranged k := by
  cases h with
  | router h => exact .router h.symm
  | network h => exact .network h.symm

theorem isRouter_eq (h : k.Rearranged k') : k'.isRouter = k.isRouter := by
  cases h <;> rfl

theorem exists_router {links : List Link} (h : (NodeKind.router links).Rearranged k') :
    ∃ links', k' = .router links' ∧ links.Perm links' := by
  cases h with
  | router h => exact ⟨_, rfl, h⟩

theorem exists_network {mask : Address} {attached : List Address}
    (h : (NodeKind.network mask attached).Rearranged k') : ∃ attached', k' = .network mask attached' := by
  cases h with
  | network _ => exact ⟨_, rfl⟩

theorem links_perm (h : k.Rearranged k') : k.links.Perm k'.links := by
  cases h with
  | router h => exact h
  | network _ => exact .refl _

theorem transitLinks_perm (h : k.Rearranged k') : k.transitLinks.Perm k'.transitLinks := h.links_perm.filter _

theorem attaches (h : k.Rearranged k') {a : Address} (ha : k.Attaches a) : k'.Attaches a := by
  obtain ⟨l, hl, hla⟩ := ha
  exact ⟨l, h.links_perm.mem_iff.1 hl, hla⟩

theorem oneLinkEach (h : k.Rearranged k') (hone : OneLinkEach k.links) : OneLinkEach k'.links :=
  ((h.links_perm.filter _).map _).nodup_iff.1 hone

/-- **The link back is the same** where it is the only one to that neighbour. -/
theorem linkTo?_eq (h : k.Rearranged k') (hone : OneLinkEach k.links) (id : Address) : k'.linkTo? id = k.linkTo? id := by
  refine Option.ext fun l => ?_
  rw [linkTo?_eq_some_iff hone, linkTo?_eq_some_iff (h.oneLinkEach hone), h.links_perm.mem_iff]

end Rearranged

end NodeKind

/-! ## 2. Rearranged databases -/

/-- The databases store the same, but for statuses, the order of the externals, and the order of the
    links or addresses of every node. -/
structure Database.Rearranged (db db' : Database) : Prop where
  forth : ∀ {id n}, db.get? id = some n → ∃ n', db'.get? id = some n' ∧ n.kind.Rearranged n'.kind
  back : ∀ {id n'}, db'.get? id = some n' → ∃ n, db.get? id = some n ∧ n.kind.Rearranged n'.kind
  oneLinkEach : ∀ {id n}, db.get? id = some n → OneLinkEach n.kind.links
  externals : (db.externals.map (·.withStatus .notExplored)).Perm (db'.externals.map (·.withStatus .notExplored))

namespace Database.Rearranged

variable {db db' : Database}

theorem symm (h : db.Rearranged db') : db'.Rearranged db where
  forth hn := by
    obtain ⟨n, hn, hk⟩ := h.back hn
    exact ⟨n, hn, hk.symm⟩
  back hn := by
    obtain ⟨n', hn', hk⟩ := h.forth hn
    exact ⟨n', hn', hk.symm⟩
  oneLinkEach hn := by
    obtain ⟨n, hn, hk⟩ := h.back hn
    exact hk.oneLinkEach (h.oneLinkEach hn)
  externals := h.externals.symm

/-- **An address leads to the same router.** -/
theorem exists_getByLinkData? (h : db.Rearranged db') {a : Address} {n : Node} (hn : db.getByLinkData? a = some n) :
    ∃ n', db'.getByLinkData? a = some n' ∧ n'.id = n.id := by
  obtain ⟨hmem, hatt, hmin⟩ := getByLinkData?_eq_some_iff.1 hn
  obtain ⟨n', hn', hk⟩ := h.forth (get?_eq_some_iff.2 ⟨hmem, rfl⟩)
  obtain ⟨hmem', hid⟩ := get?_eq_some_iff.1 hn'
  refine ⟨n', getByLinkData?_eq_some_iff.2 ⟨hmem', hk.attaches hatt, fun m' hm' hma => ?_⟩, hid⟩
  obtain ⟨m, hm, hmk⟩ := h.back (get?_eq_some_iff.2 ⟨hm', rfl⟩)
  obtain ⟨hm, hmid⟩ := get?_eq_some_iff.1 hm
  rw [hid, ← hmid]
  exact hmin m hm (hmk.symm.attaches hma)

/-- **The edges of a node are the same**, whatever the order of its links or addresses. -/
theorem mem_edges (h : db.Rearranged db') {k k' : NodeKind} (hk : k.Rearranged k') {e : Edge}
    (he : e ∈ db.edges k) : e ∈ db'.edges k' := by
  cases hk with
  | router hlinks =>
    obtain ⟨l, hl, htr, w, hw, rfl⟩ := mem_edges_router.1 he
    obtain ⟨w', hw', _⟩ := h.forth hw
    refine mem_edges_router.2 ⟨l, hlinks.mem_iff.1 hl, htr, w', hw', ?_⟩
    rw [(get?_eq_some_iff.1 hw).2, (get?_eq_some_iff.1 hw').2]
  | network hattached =>
    obtain ⟨a, ha, w, hw, rfl⟩ := mem_edges_network.1 he
    obtain ⟨w', hw', hid⟩ := h.exists_getByLinkData? hw
    exact mem_edges_network.2 ⟨a, hattached.mem_iff.1 ha, w', hw', by rw [hid]⟩

theorem path (h : db.Rearranged db') {u w : Address} {c : Nat} (hp : db.Path u w c) : db'.Path u w c := by
  induction hp with
  | start hu =>
    obtain ⟨n, hn⟩ := Option.isSome_iff_exists.1 hu
    obtain ⟨n', hn', _⟩ := h.forth hn
    exact .start (by rw [hn']; rfl)
  | step _ hn he ih =>
    obtain ⟨n', hn', hk⟩ := h.forth hn
    exact .step ih hn' (h.mem_edges hk he)

/-- **Paths cost the same.** -/
theorem leastCost_iff (h : db.Rearranged db') {u w : Address} {c : Nat} :
    db'.LeastCost u w c ↔ db.LeastCost u w c :=
  ⟨fun hc => ⟨h.symm.path hc.path, fun c' hp => hc.le c' (h.path hp)⟩,
    fun hc => ⟨h.path hc.path, fun c' hp => hc.le c' (h.symm.path hp)⟩⟩

theorem reachable_iff (h : db.Rearranged db') {u w : Address} : db'.Reachable u w ↔ db.Reachable u w :=
  exists_congr fun _ => ⟨h.symm.path, h.path⟩

section StubCheck

variable {resolve : Resolver} {n n' : Node}

/-- What the check finds on one side it finds on the other. -/
theorem stubCheck_of_eq (h : db.Rearranged db') (hid : n'.id = n.id) (hk : n.kind.Rearranged n'.kind) {c : StubCheck}
    (hc : db.stubCheck resolve n = c) (hne : c ≠ .transit) : db'.stubCheck resolve n' = c := by
  have hlinks := hk.transitLinks_perm
  cases c with
  | transit => exact absurd rfl hne
  | isolated =>
    rw [stubCheck_eq_isolated_iff] at hc ⊢
    rw [hc] at hlinks
    exact hlinks.nil_eq.symm
  | stub exit metric =>
    obtain ⟨uplink, m, back, hone, htype, hm, hback, hexit, hmetric⟩ := stubCheck_eq_stub_iff.1 hc
    obtain ⟨m', hm', hmk⟩ := h.forth hm
    rw [hone] at hlinks
    refine stubCheck_eq_stub_iff.2 ⟨uplink, m', back, List.singleton_perm.1 hlinks ▸ rfl, htype, hm', ?_, hexit, hmetric⟩
    rw [hid, hmk.linkTo?_eq (h.oneLinkEach hm), hback]

/-- **A stub router is one on either side**, and so is an isolated one. -/
theorem stubCheck_eq (h : db.Rearranged db') (hid : n'.id = n.id) (hk : n.kind.Rearranged n'.kind) :
    db'.stubCheck resolve n' = db.stubCheck resolve n := by
  by_cases hc : db.stubCheck resolve n = .transit
  · by_cases hc' : db'.stubCheck resolve n' = .transit
    · rw [hc, hc']
    · exact (h.symm.stubCheck_of_eq hid.symm hk.symm rfl hc').symm
  · exact h.stubCheck_of_eq hid hk rfl hc

end StubCheck

end Database.Rearranged

/-! ## 3. Lists of advertisements -/

namespace Advertisement

/-- The same advertisement, but for its status and the order of its links or addresses. -/
inductive Rearranged : Advertisement → Advertisement → Prop
  | node {n n' : Node} (hid : n.id = n'.id) (hk : n.kind.Rearranged n'.kind) : Rearranged (.node n) (.node n')
  | external {e e' : External} (h : e.withStatus .notExplored = e'.withStatus .notExplored) :
      Rearranged (.external e) (.external e')

/-- The lists hold the same advertisements, each rearranged, in another order. -/
def Rearrangement (ads ads' : List Advertisement) : Prop :=
  ∃ mid, ads.Perm mid ∧ List.Forall₂ Rearranged mid ads'

/-- The nodes have an identifier each, and no router has two point-to-point links to one neighbour. -/
structure Unambiguous (ads : List Advertisement) : Prop where
  ids : ((ads.filter isNode).map id).Nodup
  links : ∀ a ∈ ads, OneLinkEach a.links

variable {ads ads' mid : List Advertisement}

theorem exists_of_forall₂ {α : Type} {R : α → α → Prop} {x : α} {xs ys : List α} (h : List.Forall₂ R xs ys)
    (hx : x ∈ xs) : ∃ y ∈ ys, R x y := by
  induction h with
  | nil => cases hx
  | cons hr _ ih =>
    rcases List.mem_cons.1 hx with rfl | hx
    · exact ⟨_, List.mem_cons_self, hr⟩
    · obtain ⟨y, hy, hr⟩ := ih hx
      exact ⟨y, List.mem_cons_of_mem _ hy, hr⟩

theorem ids_of_forall₂ (h : List.Forall₂ Rearranged mid ads') :
    (mid.filter isNode).map id = (ads'.filter isNode).map id := by
  induction h with
  | nil => rfl
  | cons hr _ ih =>
    cases hr with
    | node hid _ => exact congrArg₂ List.cons hid ih
    | external _ => exact ih

theorem externals_of_forall₂ (h : List.Forall₂ Rearranged mid ads') :
    (mid.filterMap external?).map (·.withStatus .notExplored) =
      (ads'.filterMap external?).map (·.withStatus .notExplored) := by
  induction h with
  | nil => rfl
  | cons hr _ ih =>
    cases hr with
    | node _ _ => exact ih
    | external he => exact congrArg₂ List.cons he ih

/-- **Rearranged lists make rearranged databases.** -/
theorem Rearrangement.ofList (h : Rearrangement ads ads') (hu : Unambiguous ads) :
    (Database.ofList ads).Rearranged (.ofList ads') := by
  obtain ⟨mid, hperm, hall⟩ := h
  have hids' : ((ads'.filter isNode).map id).Nodup := by
    rw [← ids_of_forall₂ hall]
    exact ((hperm.filter _).map _).nodup_iff.1 hu.ids
  have get_iff : ∀ {as : List Advertisement}, ((as.filter isNode).map id).Nodup → ∀ {i n},
      (Database.ofList as).get? i = some n ↔ .node n ∈ as ∧ n.id = i := fun hn => by
    intro i n
    rw [Database.get?_eq_some_iff, Database.mem_nodes_ofList hn]
  refine ⟨fun hn => ?_, fun hn => ?_, fun hn => hu.links _ ((get_iff hu.ids).1 hn).1, ?_⟩
  · obtain ⟨hmem, rfl⟩ := (get_iff hu.ids).1 hn
    obtain ⟨a', ha', hr⟩ := exists_of_forall₂ hall (hperm.mem_iff.1 hmem)
    cases hr with
    | node hid hk => exact ⟨_, (get_iff hids').2 ⟨ha', hid.symm⟩, hk⟩
  · obtain ⟨hmem, rfl⟩ := (get_iff hids').1 hn
    obtain ⟨a, ha, hr⟩ := exists_of_forall₂ (List.Forall₂.flip (R := flip Rearranged) hall) hmem
    cases hr with
    | node hid hk => exact ⟨_, (get_iff hu.ids).2 ⟨hperm.mem_iff.2 ha, hid⟩, hk⟩
  · rw [Database.externals_ofList, Database.externals_ofList, ← externals_of_forall₂ hall]
    exact (hperm.filterMap _).map _

end Advertisement

end LinkState
