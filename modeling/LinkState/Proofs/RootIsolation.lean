import LinkState.Proofs.Recomputation
import LinkState.Proofs.StubRouters

/-!
# Roots do not interfere

All roots are calculated on one database, and every calculation leaves its statuses there. None of
them shows in the next: a calculation reads the content of the database only
(`Database.calculate_congr`) and leaves that content as it is (`Database.reset_calculate`). So
calculating the roots in turn comes to the same as calculating each of them on a copy.

* `Manager.wellFormed_run`: after any operations the roots are positions of routers, each once;
* `Manager.Calculated.step`: calculating one more root writes the table of its router and no other;
* `Manager.calculated_initializeRoutes`: so every root gets the routes of its own calculation, in
  whatever order they are calculated.
-/

namespace LinkState

/-! ## 1. One calculation -/

namespace Database

/-- The identifier is that of a stored router. -/
def hasRouter (db : Database) (id : Address) : Bool := (db.get? id).any (·.kind.isRouter)

variable {db db' : Database} {root : Address}

theorem hasRouter_iff : db.hasRouter root = true ↔ ∃ n, db.get? root = some n ∧ n.kind.isRouter = true := by
  cases h : db.get? root <;> simp [hasRouter, h]

theorem hasRouter_reset (db : Database) (id : Address) : db.reset.hasRouter id = db.hasRouter id := by
  rw [hasRouter, get?_reset, Option.any_map]
  rfl

/-- Anything but a router is refused as a root. -/
theorem exists_error_rootRouter (h : db.hasRouter root = false) : ∃ e, db.reset.rootRouter root = .error e := by
  rw [← hasRouter_reset, hasRouter] at h
  unfold rootRouter
  cases hn : db.reset.get? root with
  | none => exact ⟨_, rfl⟩
  | some n =>
    rw [hn, Option.any_some] at h
    simp [h]

/-- **A calculation reads the content of the database only**, whatever its statuses are. -/
theorem calculate_congr (h : db'.reset = db.reset) (resolve : Resolver) (root : Address) :
    db'.calculate resolve root = db.calculate resolve root := by
  rw [calculate, calculate, calculateInto, calculateInto, h]

/-- Without a router there is nothing to calculate. -/
theorem exists_calculate_error (h : db.hasRouter root = false) (resolve : Resolver) :
    ∃ e, db.calculate resolve root = ⟨.error e, [], db.reset⟩ := by
  obtain ⟨e, he⟩ := exists_error_rootRouter h
  exact ⟨e, calculate_of_error db resolve he⟩

/-- **A stored router is calculated to the end**, and that writes nothing but statuses. -/
theorem exists_calculate_ok (h : db.hasRouter root = true) (resolve : Resolver) :
    ∃ o routes db', db.calculate resolve root = ⟨.ok o, routes, db'⟩ ∧ db'.reset = db.reset := by
  obtain ⟨n, hn, hk⟩ := hasRouter_iff.1 h
  cases hcheck : db.stubCheck resolve n with
  | isolated => exact ⟨_, _, _, calculate_of_isolated hn hk hcheck, db.reset_reset⟩
  | stub exit metric => exact ⟨_, _, _, calculate_of_stub hn hk hcheck, db.reset_reset⟩
  | transit =>
    obtain ⟨t, db', routes, hrun, _, hcalc, _⟩ := db.exists_calculateTree resolve hn hk
    obtain ⟨t', _, hrun', _, st, rfl, _⟩ := db.exists_explored resolve hn hk
    cases hrun.symm.trans hrun'
    exact ⟨_, _, _, (calculate_of_transit hn hk hcheck).trans hcalc, by rw [reset_mapStatus, reset_reset]⟩

/-- **A calculation leaves the content of the database as it is.** -/
theorem reset_calculate (db : Database) (resolve : Resolver) (root : Address) :
    (db.calculate resolve root).database.reset = db.reset := by
  cases h : db.hasRouter root with
  | true =>
    obtain ⟨o, routes, db', hcalc, hreset⟩ := exists_calculate_ok h resolve
    rw [hcalc, hreset]
  | false =>
    obtain ⟨e, hcalc⟩ := exists_calculate_error h resolve
    rw [hcalc, reset_reset]

end Database

/-! ## 2. The list of the roots -/

namespace Manager

/-- The roots are positions of routers, each once. -/
structure WellFormed (m : Manager) : Prop where
  nodup : m.roots.Nodup
  lt : ∀ i ∈ m.roots, i < m.routers.length

section Positions

variable {m : Manager} {p : Router → Bool} {i : Nat}

theorem mem_positions : i ∈ m.positions p ↔ ∃ r, m.routers[i]? = some r ∧ p r = true := by
  simp only [positions, List.mem_map, List.mem_filter, List.mem_zipIdx_iff_getElem?, Prod.exists]
  refine ⟨fun h => ?_, fun h => ?_⟩
  · obtain ⟨r, _, ⟨hr, hp⟩, rfl⟩ := h
    exact ⟨r, hr, hp⟩
  · obtain ⟨r, hr, hp⟩ := h
    exact ⟨r, i, ⟨hr, hp⟩, rfl⟩

theorem nodup_positions (m : Manager) (p : Router → Bool) : (m.positions p).Nodup := by
  have hall : (m.routers.zipIdx.map (·.2)).Nodup := by
    rw [List.zipIdx_map_snd]
    exact List.nodup_range'
  exact hall.sublist (List.filter_sublist.map _)

theorem lt_of_mem_positions (h : i ∈ m.positions p) : i < m.routers.length := by
  obtain ⟨r, hr, _⟩ := mem_positions.1 h
  exact (List.getElem?_eq_some_iff.1 hr).1

end Positions

theorem WellFormed.addRouter {m : Manager} (hm : m.WellFormed) (r : Router) : (m.addRouter r).WellFormed where
  nodup := hm.nodup
  lt i hi := by
    have := hm.lt i hi
    simp only [Manager.addRouter, List.length_append]
    omega

theorem WellFormed.buildDatabase {m : Manager} (hm : m.WellFormed) : m.buildDatabase.WellFormed where
  nodup := Distinct.nodup_merge hm.nodup
  lt i hi := (Distinct.mem_merge.1 hi).elim (hm.lt i) lt_of_mem_positions

theorem wellFormed_useDatabase (m : Manager) (db : Database) : (m.useDatabase db).WellFormed where
  nodup := m.nodup_positions fun r => (db.get? r.id).isSome
  lt _ hi := lt_of_mem_positions (m := m) (p := fun r => (db.get? r.id).isSome) hi

theorem wellFormed_deleteRoutes (m : Manager) : m.deleteRoutes.WellFormed :=
  ⟨.nil, fun _ hi => absurd hi List.not_mem_nil⟩

end Manager

/-! ## 3. Calculating the roots in turn -/

/-- The router with the routes of its own calculation on a database. -/
def Router.calculated (r : Router) (db : Database) : Router :=
  r.install (db.calculate r.interfaces.resolve r.id).routes

theorem Router.calculated_congr {db db' : Database} (h : db'.reset = db.reset) (r : Router) :
    r.calculated db' = r.calculated db := by
  rw [calculated, calculated, Database.calculate_congr h]

/-- A router that is not stored as one gets no routes. -/
theorem Router.calculated_of_not_hasRouter {r : Router} {db : Database} (h : db.hasRouter r.id = false) :
    r.calculated db = r := by
  obtain ⟨e, he⟩ := Database.exists_calculate_error h r.interfaces.resolve
  rw [calculated, he, install, RoutingTable.append_nil]

namespace Manager

/-- The router at a position has its own identifier stored as that of a router. -/
def computes (m : Manager) (i : Nat) : Bool := m.routers[i]?.any fun r => m.database.hasRouter r.id

theorem computes_iff {m : Manager} {i : Nat} :
    m.computes i = true ↔ ∃ r, m.routers[i]? = some r ∧ m.database.hasRouter r.id = true := by
  cases h : m.routers[i]? <;> simp [computes, h]

/-- The roots that can be calculated. -/
def computed (m : Manager) : List Nat := m.roots.filter m.computes

/-- What has become of the manager `m` when the roots in `done` have been calculated. -/
structure Calculated (m : Manager) (done : List Nat) (s : Nat × Manager) : Prop where
  count : s.1 = done.countP m.computes
  router : ∀ i, s.2.routers[i]? = m.routers[i]?.map fun r => if i ∈ done then r.calculated m.database else r
  content : s.2.database.reset = m.database.reset
  roots : s.2.roots = m.roots

/-- One root: its router is written, and it counts if it is stored as a router. -/
theorem calculateRoot_eq {s : Nat × Manager} {i : Nat} {r : Router} (hr : s.2.routers[i]? = some r) :
    calculateRoot s i = (s.1 + if s.2.database.hasRouter r.id then 1 else 0,
      { s.2 with
        database := (s.2.database.calculate r.interfaces.resolve r.id).database
        routers := s.2.routers.set i (r.calculated s.2.database) }) := by
  have hat : s.2.calculateAt i = (some (s.2.database.calculate r.interfaces.resolve r.id).outcome,
      { s.2 with
        database := (s.2.database.calculate r.interfaces.resolve r.id).database
        routers := s.2.routers.set i (r.calculated s.2.database) }) := calculateAt_eq hr
  rw [calculateRoot, hat]
  cases h : s.2.database.hasRouter r.id with
  | true =>
    obtain ⟨o, routes, db', hcalc, _⟩ := Database.exists_calculate_ok h r.interfaces.resolve
    rw [hcalc]
    rfl
  | false =>
    obtain ⟨e, hcalc⟩ := Database.exists_calculate_error h r.interfaces.resolve
    rw [hcalc]
    rfl

namespace Calculated

variable {m : Manager} {done : List Nat} {s : Nat × Manager}

/-- Before the first root nothing has changed. -/
theorem start (m : Manager) : m.Calculated [] (0, m) where
  count := rfl
  router i := by simp
  content := rfl
  roots := rfl

/-- **One more root** writes the table of its own router, by a calculation that does not see what the
    others have left. -/
theorem step (hs : m.Calculated done s) {i : Nat} (hi : i < m.routers.length) (hnew : i ∉ done) :
    (s.2.calculateAt i).1.isSome ∧ m.Calculated (done ++ [i]) (calculateRoot s i) := by
  obtain ⟨r, hr⟩ : ∃ r, m.routers[i]? = some r := ⟨_, List.getElem?_eq_getElem hi⟩
  have hsr : s.2.routers[i]? = some r := by rw [hs.router, hr, Option.map_some, if_neg hnew]
  refine ⟨by rw [calculateAt_eq hsr]; rfl, ?_⟩
  rw [calculateRoot_eq hsr, Router.calculated_congr hs.content, ← Database.hasRouter_reset, hs.content,
    Database.hasRouter_reset]
  constructor
  case count =>
    have hcomputes : m.computes i = m.database.hasRouter r.id := by rw [computes, hr, Option.any_some]
    rw [List.countP_append, ← hs.count, List.countP_singleton, hcomputes]
  case router =>
    intro k
    have hlen : i < s.2.routers.length := (List.getElem?_eq_some_iff.1 hsr).1
    simp only [List.getElem?_set, List.mem_append, List.mem_singleton]
    by_cases hk : i = k
    · subst hk
      rw [if_pos rfl, if_pos hlen, hr, Option.map_some, if_pos (.inr rfl)]
    · have hki : (k ∈ done ∨ k = i) ↔ k ∈ done := or_iff_left (Ne.symm hk)
      rw [if_neg hk, hs.router]
      simp only [hki]
  case content => exact (Database.reset_calculate _ _ _).trans hs.content
  case roots => exact hs.roots

/-- **Calculating roots in turn**, none of them done before. -/
theorem foldl : ∀ {todo done : List Nat} {s : Nat × Manager}, m.Calculated done s →
    (∀ i ∈ todo, i < m.routers.length) → (done ++ todo).Nodup →
      m.Calculated (done ++ todo) (todo.foldl calculateRoot s)
  | [], done, s, hs, _, _ => by rwa [List.append_nil]
  | i :: todo, done, s, hs, hlt, hn => by
    have hnew : i ∉ done := fun hi => (List.nodup_append.1 hn).2.2 i hi i List.mem_cons_self rfl
    have hs' := (hs.step (hlt i List.mem_cons_self) hnew).2
    rw [List.append_cons] at hn ⊢
    exact foldl hs' (fun k hk => hlt k (List.mem_cons_of_mem _ hk)) hn

end Calculated

/-- **Every root is calculated**, and the index of none leads outside the list of the routers. -/
theorem calculated_initializeRoutes {m : Manager} (hm : m.WellFormed) : m.Calculated m.roots m.initializeRoutes :=
  (Calculated.start m).foldl hm.lt (by simpa using hm.nodup)

theorem isSome_calculateAt {m : Manager} (hm : m.WellFormed) {front back : List Nat} {i : Nat}
    (h : m.roots = front ++ i :: back) : ((front.foldl calculateRoot (0, m)).2.calculateAt i).1.isSome := by
  have hlt := hm.lt
  have hn := hm.nodup
  rw [h] at hlt hn
  have hnew : i ∉ front := fun hi => (List.nodup_append.1 hn).2.2 i hi i List.mem_cons_self rfl
  have hs : m.Calculated front _ :=
    (Calculated.start m).foldl (fun k hk => hlt k (List.mem_append_left _ hk)) (List.nodup_append.1 hn).1
  exact (hs.step (hlt i (List.mem_append_right _ List.mem_cons_self)) hnew).1

/-! ## 4. After any operations -/

theorem WellFormed.congr {m m' : Manager} (hm : m.WellFormed) (hroots : m'.roots = m.roots)
    (hb : m'.brought = m.brought) : m'.WellFormed where
  nodup := hroots ▸ hm.nodup
  lt i hi := by
    have hlen := congrArg List.length hb
    simp only [brought, List.length_map] at hlen
    rw [hlen]
    exact hm.lt i (hroots ▸ hi)

theorem WellFormed.initializeRoutes {m : Manager} (hm : m.WellFormed) : m.initializeRoutes.2.WellFormed :=
  hm.congr (calculated_initializeRoutes hm).roots m.brought_initializeRoutes

theorem roots_calculateFor (m : Manager) (id : Address) : (m.calculateFor id).2.roots = m.roots := by
  have hat : ∀ i, (m.calculateAt i).2.roots = m.roots := fun i => by
    unfold calculateAt
    split <;> rfl
  unfold calculateFor
  split
  · rfl
  · rename_i i _
    have h := hat i
    split <;> rename_i heq <;> rw [heq] at h <;> exact h

/-- **One operation** keeps the roots in form. -/
theorem WellFormed.perform {m : Manager} (hm : m.WellFormed) (op : Operation) : (m.perform op).WellFormed := by
  cases op with
  | addRouter r => exact hm.addRouter r
  | buildDatabase => exact hm.buildDatabase
  | deleteRoutes => exact m.wellFormed_deleteRoutes
  | useDatabase db => exact m.wellFormed_useDatabase db
  | initializeRoutes => exact hm.initializeRoutes
  | recompute => exact m.wellFormed_deleteRoutes.buildDatabase.initializeRoutes
  | populate => exact hm.buildDatabase.initializeRoutes
  | calculateFor id => exact hm.congr (m.roots_calculateFor id) (m.brought_calculateFor id)

theorem WellFormed.foldl_perform : ∀ (ops : List Operation) {m : Manager}, m.WellFormed →
    (ops.foldl Manager.perform m).WellFormed
  | [], _, hm => hm
  | op :: ops, _, hm => foldl_perform ops (hm.perform op)

/-- **After any operations** the roots are positions of routers, each once. -/
theorem wellFormed_run (ops : List Operation) : (run ops).WellFormed :=
  .foldl_perform ops ⟨.nil, fun _ hi => absurd hi List.not_mem_nil⟩

/-! ## 5. Roots do not interfere -/

/-- After a database has been taken over, the roots that are calculated are the routers that it holds
    as routers. -/
theorem computed_useDatabase (m : Manager) (db : Database) :
    (m.useDatabase db).computed = m.positions fun r => db.hasRouter r.id := by
  have hkeep : ∀ x ∈ m.routers.zipIdx, ((m.useDatabase db).computes x.2 && (db.get? x.1.id).isSome) =
      db.hasRouter x.1.id := fun x hx => by
    have hr : (m.useDatabase db).routers[x.2]? = some x.1 := List.mem_zipIdx_iff_getElem?.1 hx
    rw [computes, hr, Option.any_some]
    show (db.hasRouter x.1.id && (db.get? x.1.id).isSome) = db.hasRouter x.1.id
    cases hget : db.get? x.1.id <;> simp [Database.hasRouter, hget]
  show (m.positions fun r => (db.get? r.id).isSome).filter (m.useDatabase db).computes = _
  rw [positions, List.filter_map, List.filter_filter, positions]
  exact congrArg (List.map _) (List.filter_congr hkeep)

/-- **The roots are calculated apart from each other.** A root that is stored as a router has the
    routes of its own calculation behind those it had, as they would be on any copy of the database;
    no other router changes, and the database changes in statuses only. -/
structure CalculatesApart (m : Manager) (done : Nat × Manager) : Prop where
  count : done.1 = m.computed.length
  computed : ∀ i ∈ m.computed, ∃ r, m.routers[i]? = some r ∧ ∀ copy : Database, copy.reset = m.database.reset →
    (∃ o, (copy.calculate r.interfaces.resolve r.id).outcome = .ok o) ∧
      done.2.routers[i]? = some (r.install (copy.calculate r.interfaces.resolve r.id).routes)
  others : ∀ i, i ∉ m.computed → done.2.routers[i]? = m.routers[i]?
  brought : done.2.brought = m.brought
  database : done.2.database.reset = m.database.reset

theorem Calculated.calculatesApart {m : Manager} {s : Nat × Manager} (hs : m.Calculated m.roots s)
    (hb : s.2.brought = m.brought) : m.CalculatesApart s where
  count := by rw [hs.count, Manager.computed, List.countP_eq_length_filter]
  computed i hi := by
    obtain ⟨hroot, hcomputes⟩ := List.mem_filter.1 hi
    obtain ⟨r, hr, hrouter⟩ := computes_iff.1 hcomputes
    refine ⟨r, hr, fun copy hcopy => ?_⟩
    rw [Database.calculate_congr hcopy, hs.router, hr, Option.map_some, if_pos hroot]
    obtain ⟨o, routes, db', hcalc, _⟩ := Database.exists_calculate_ok hrouter r.interfaces.resolve
    exact ⟨⟨o, by rw [hcalc]⟩, rfl⟩
  others i hi := by
    rw [hs.router]
    cases hr : m.routers[i]? with
    | none => rfl
    | some r =>
      rw [Option.map_some]
      split
      · rename_i hroot
        have hnot : m.database.hasRouter r.id = false := Bool.eq_false_iff.2 fun hrouter =>
          hi (List.mem_filter.2 ⟨hroot, computes_iff.2 ⟨r, hr, hrouter⟩⟩)
        rw [Router.calculated_of_not_hasRouter hnot]
      · rfl
  brought := hb
  database := hs.content

/-- Two orders of the same roots come to the same. -/
theorem Calculated.eq_of_perm {m : Manager} {done done' : List Nat} {s s' : Nat × Manager}
    (hs : m.Calculated done s) (hs' : m.Calculated done' s') (hp : done'.Perm done) :
    s'.1 = s.1 ∧ s'.2.routers = s.2.routers := by
  refine ⟨by rw [hs.count, hs'.count, hp.countP_eq], List.ext_getElem? fun i => ?_⟩
  rw [hs.router, hs'.router]
  simp only [hp.mem_iff]

/-- **Roots do not interfere**, whatever was done to the manager before. The roots are distinct
    positions of routers, also when their turn comes; they are calculated apart from each other, and
    in any other order as well; and a database from outside makes roots of its routers. -/
theorem initializeRoutes_run (ops : List Operation) :
    (run ops).roots.Nodup ∧
      (∀ front i back, (run ops).roots = front ++ i :: back →
        ((front.foldl calculateRoot (0, run ops)).2.calculateAt i).1.isSome) ∧
      (run ops).CalculatesApart (run ops).initializeRoutes ∧
      (∀ roots : List Nat, roots.Perm (run ops).roots →
        (roots.foldl calculateRoot (0, run ops)).1 = (run ops).initializeRoutes.1 ∧
          (roots.foldl calculateRoot (0, run ops)).2.routers = (run ops).initializeRoutes.2.routers) ∧
      ∀ db, ((run ops).useDatabase db).computed = (run ops).positions fun r => db.hasRouter r.id := by
  have hm := wellFormed_run ops
  have hs := calculated_initializeRoutes hm
  refine ⟨hm.nodup, fun front i back h => isSome_calculateAt hm h,
    hs.calculatesApart (run ops).brought_initializeRoutes, fun roots hp => ?_, (run ops).computed_useDatabase⟩
  refine hs.eq_of_perm ((Calculated.start (run ops)).foldl (fun i hi => hm.lt i (hp.mem_iff.1 hi)) ?_) hp
  exact hp.nodup_iff.2 hm.nodup

/-- Two routers on one wire, a router whose identifier is that of a network, one that announces an
    external and nothing else, and one that advertises nothing; all of them have been calculated once. -/
def mixed : List Operation :=
  [.addRouter ⟨.ofOctets 10 0 0 1, .ofList [⟨1, .ofOctets 10 1 1 1, .ofOctets 255 255 255 252⟩],
      [.node ⟨.ofOctets 10 0 0 1, .router [⟨.pointToPoint, .ofOctets 10 0 0 2, .ofOctets 10 1 1 1, 5⟩], .notExplored⟩],
      .empty⟩,
    .addRouter ⟨.ofOctets 10 0 0 2, .ofList [⟨7, .ofOctets 10 1 1 2, .ofOctets 255 255 255 252⟩],
      [.node ⟨.ofOctets 10 0 0 2, .router [⟨.pointToPoint, .ofOctets 10 0 0 1, .ofOctets 10 1 1 2, 5⟩,
        ⟨.pointToPoint, .ofOctets 10 0 0 8, .ofOctets 10 1 2 1, 5⟩], .notExplored⟩], .empty⟩,
    .addRouter ⟨.ofOctets 10 9 0 1, .empty,
      [.node ⟨.ofOctets 10 9 0 1, .network (.ofOctets 255 255 255 0) [], .notExplored⟩], .empty⟩,
    .addRouter ⟨.ofOctets 10 0 0 4, .empty,
      [.external ⟨.ofOctets 172 16 0 0, .ofOctets 255 240 0 0, .ofOctets 10 0 0 1, .notExplored⟩], .empty⟩,
    .addRouter ⟨.ofOctets 10 0 0 5, .empty, [], .empty⟩,
    .populate]

/-- Of its four roots two are calculated, whatever the first round has left in the statuses, and the
    second of them gets the same two routes once more. -/
theorem mixed_calculatesApart :
    (run mixed).roots = [0, 1, 2, 3] ∧ (run mixed).computed = [0, 1] ∧
      (run mixed).CalculatesApart (run mixed).initializeRoutes ∧ (run mixed).initializeRoutes.1 = 2 ∧
      (run mixed).initializeRoutes.2.routers[1]?.map (·.table.routes) =
        some [.host (.ofOctets 10 1 1 1) (.ofOctets 10 1 1 1) 7 5,
          .external (.ofOctets 172 16 0 0) (.ofOctets 255 240 0 0) (.ofOctets 10 1 1 1) 7 5,
          .host (.ofOctets 10 1 1 1) (.ofOctets 10 1 1 1) 7 5,
          .external (.ofOctets 172 16 0 0) (.ofOctets 255 240 0 0) (.ofOctets 10 1 1 1) 7 5] := by
  have hroots : (run mixed).roots = [0, 1, 2, 3] := by decide +kernel
  have hcomputed : (run mixed).computed = [0, 1] := by decide +kernel
  obtain ⟨_, _, hapart, _, _⟩ := initializeRoutes_run mixed
  exact ⟨hroots, hcomputed, hapart, by rw [hapart.count, hcomputed]; rfl, by decide +kernel⟩

end Manager

end LinkState
