import DelosLab.Kv.ExactlyOnce

/-!
# Reads of the store beside a transaction

A `get` and a `snapshot` take no lock, and they see what the open transaction of the one
connection has written. `apply` deletes all items before it inserts the new ones.
-/

namespace DelosLab.Kv

open Async Async.Runtime

variable {𝒮 : Deployment}

/-! ## What statements do to the items -/

namespace Tables

variable {t : Tables}

theorem insertRequest_items (row : KvRequestRow) : (t.insertRequest row).1.items = t.items := by
  unfold insertRequest
  split <;> rfl

theorem insertEntry_items (row : KvAppliedRow) : (t.insertEntry row).1.items = t.items := by
  unfold insertEntry
  split <;> rfl

theorem insertMany_items {Row : Type} {insert : Tables → Row → Tables × Except Error Unit}
    (h : ∀ t row, (insert t row).1.items = t.items) (rows : List Row) :
    (t.insertMany insert rows).1.items = t.items := by
  induction rows generalizing t with
  | nil => rfl
  | cons row rows ih =>
      have hrow := h t row
      rw [insertMany]
      split
      · next heq =>
          rw [heq] at hrow
          exact ih.trans hrow
      · next heq =>
          rw [heq] at hrow
          exact hrow

theorem updateProgress_items (position : Int) : (t.updateProgress position).1.items = t.items := by
  unfold updateProgress
  split <;> rfl

end Tables

namespace Connection

/-- No transaction has written to the items, or what is seen of them is committed. -/
def Clean (k : Connection) : Prop :=
  k.rewriting = false → k.working.items = k.committed.items

theorem Clean.execute {k : Connection} (h : k.Clean) (s : Statement) : (k.execute s).1.Clean := by
  intro hrewriting
  cases s with
  | begin =>
      unfold Connection.execute at hrewriting ⊢
      by_cases hin : k.inTransaction = true
      · rw [if_pos hin] at hrewriting ⊢
        exact h hrewriting
      · rw [if_neg hin] at hrewriting ⊢
        exact h hrewriting
  | commit => rfl
  | rollback => rfl
  | deleteItems => cases hrewriting
  | insertItems values => cases hrewriting
  | insertRequests rows =>
      exact (Tables.insertMany_items (fun _ => Tables.insertRequest_items) rows).trans
        (h hrewriting)
  | insertEntries rows =>
      exact (Tables.insertMany_items (fun _ => Tables.insertEntry_items) rows).trans
        (h hrewriting)
  | updateProgress position => exact (Tables.updateProgress_items position).trans (h hrewriting)
  | _ => exact h hrewriting

end Connection

/-! ## The invariant -/

/-- What was shown is what these values are. -/
def Shown.Of (values : KvValues) : Shown → Prop
  | .item key value => value = values.lookup key
  | .items shown => shown = values

/-- What was read is what the last commit before the read had left. -/
def StoreRead.Current (w : World) (r : StoreRead) : Prop :=
  ∃ values, (w.contents r.node)[r.commits]? = some values ∧ r.shown.Of values

/-- The commits of the stores are listed, and reads that have met no rewriting are right. -/
structure World.Listed (w : World) : Prop where
  last : ∀ node, (w.contents node).getLast? = some (w.connection node).committed.items
  clean : ∀ node, (w.connection node).Clean
  reads : ∀ r ∈ w.reads, r.rewriting = false → r.Current w

namespace World.Listed

variable {w w' : World}

/-- A step that leaves the connections alone. -/
theorem of_eq (h : w.Listed) (hconnection : ∀ node, w'.connection node = w.connection node)
    (hcontents : w'.contents = w.contents) (hreads : w'.reads = w.reads) : w'.Listed where
  last := by
    intro node
    rw [hcontents, hconnection]
    exact h.last node
  clean := by
    intro node
    rw [hconnection]
    exact h.clean node
  reads := by
    intro r hr hrewriting
    rw [hreads] at hr
    unfold StoreRead.Current
    rw [hcontents]
    exact h.reads r hr hrewriting

/-- The last commit of a store is the one that the number of commits names. -/
theorem current (h : w.Listed) (node : String) :
    (w.contents node)[(w.contents node).length - 1]? =
      some (w.connection node).committed.items := by
  rw [← List.getLast?_eq_getElem?]
  exact h.last node

/-- A later commit leaves the earlier ones in the list. -/
theorem current_mono {r : StoreRead} (hr : r.Current w)
    (hcontents : w.contents r.node <+: w'.contents r.node) : r.Current w' := by
  obtain ⟨values, hvalues, hof⟩ := hr
  obtain ⟨hlt, -⟩ := List.getElem?_eq_some_iff.mp hvalues
  obtain ⟨later, hlater⟩ := hcontents
  refine ⟨values, ?_, hof⟩
  rw [← hlater, List.getElem?_append_left hlt]
  exact hvalues

/-- A commit appends what it has committed. -/
theorem contentsAfter_spec (h : w.Listed) (node : String) (s : Statement) :
    (w.contents node <+: Deployment.contentsAfter w node s node ∧
      (Deployment.contentsAfter w node s node).getLast? =
        some ((w.connection node).execute s).1.committed.items) ∧
    ∀ n, n ≠ node → Deployment.contentsAfter w node s n = w.contents n := by
  have hsame : ∀ s : Statement, s ≠ .commit → Deployment.contentsAfter w node s = w.contents := by
    intro s hs
    cases s <;> first | rfl | exact absurd rfl hs
  by_cases hs : s = .commit
  · subst hs
    have hself : Deployment.contentsAfter w node .commit node =
        w.contents node ++ [(w.connection node).working.items] := Function.update_self _ _ _
    rw [hself]
    refine ⟨⟨List.prefix_append _ _, ?_⟩, fun n hn => Function.update_of_ne hn _ _⟩
    rw [List.getLast?_append]
    rfl
  · rw [hsame s hs]
    refine ⟨⟨List.prefix_rfl, ?_⟩, fun n _ => rfl⟩
    rcases Connection.execute_committed (w.connection node) s with hc | hc
    · rw [hc]
      exact h.last node
    · exact absurd hc hs

/-- What a statement notes is what the last commit has left, or it is noted as a read beside
a rewriting. -/
theorem readsAfter_spec (h : w.Listed) (node : String) (s : Statement) :
    ∀ r ∈ Deployment.readsAfter w node s, r.rewriting = false → r.Current w := by
  have hshown : ∀ shown : Shown, ((w.connection node).rewriting = false →
      shown.Of (w.connection node).committed.items) → ∀ r ∈ w.reads ++ [⟨node,
        (w.contents node).length - 1, (w.connection node).rewriting, shown⟩],
          r.rewriting = false → r.Current w := by
    intro shown hof r hr hrewriting
    rcases List.mem_append.mp hr with hr | hr
    · exact h.reads r hr hrewriting
    · obtain rfl := List.mem_singleton.mp hr
      exact ⟨_, h.current node, hof hrewriting⟩
  cases s with
  | selectItem key => exact hshown _ fun hr => congrArg (Finmap.lookup key) (h.clean node hr)
  | selectItems => exact hshown _ fun hr => h.clean node hr
  | _ => exact h.reads

/-- **One statement** of any task keeps the list of the commits and the reads. -/
theorem sql (h : w.Listed) (node : String) (s : Statement) :
    (Deployment.sql w node s).1.Listed := by
  obtain ⟨⟨hgrown, hlast⟩, hothers⟩ := h.contentsAfter_spec node s
  have hself : (Deployment.sql w node s).1.connection node = ((w.connection node).execute s).1 := by
    show ((w.setConnection node _).replicas node).connection = _
    rw [World.replicas_setConnection]
  have hne : ∀ n, n ≠ node → (Deployment.sql w node s).1.connection n = w.connection n := by
    intro n hn
    show ((w.setReplica node _).replicas n).connection = _
    rw [World.replicas_setReplica_ne hn]
    rfl
  constructor
  · intro n
    by_cases hn : n = node
    · subst hn
      rw [hself]
      exact hlast
    · rw [hne n hn]
      exact (congrArg List.getLast? (hothers n hn)).trans (h.last n)
  · intro n
    by_cases hn : n = node
    · subst hn
      rw [hself]
      exact (h.clean n).execute s
    · rw [hne n hn]
      exact h.clean n
  · intro r hr hrewriting
    refine current_mono (h.readsAfter_spec node s r hr hrewriting) ?_
    by_cases hn : r.node = node
    · rw [hn]
      exact hgrown
    · exact (hothers r.node hn).symm ▸ List.prefix_rfl

end World.Listed

theorem World.listed_initial (tables : String → Tables) : (World.initial tables).Listed where
  last := fun _ => rfl
  clean := fun _ _ => rfl
  reads := nofun

theorem World.connection_setLock (w : World) (node n : String) (lock : Lock)
    (holder : Option TaskId) : (w.setLock node lock holder).connection n = w.connection n := by
  by_cases hn : n = node
  · subst hn
    unfold World.connection
    rw [World.replicas_setLock]
  · exact congrArg Replica.connection (Function.update_of_ne hn _ _)

theorem World.connection_setCached (w : World) (node n : String) :
    (w.setCached node).connection n = w.connection n := by
  by_cases hn : n = node
  · subst hn
    unfold World.connection
    rw [World.replicas_setCached]
  · exact congrArg Replica.connection (Function.update_of_ne hn _ _)

/-- Every step of every run keeps the list. -/
theorem listed_keeps : 𝒮.runtime.Keeps Condition.any World.Listed where
  start := by
    intro w t c w' p h _ hs
    obtain ⟨rfl, rfl⟩ := Prod.mk.inj (Option.some.inj hs)
    exact h.of_eq (fun _ => rfl) rfl rfl
  exec := by
    intro w t a h
    cases a with
    | sql s => exact h.sql t.node s
    | release lock => exact h.of_eq (World.connection_setLock w t.node · lock none) rfl rfl
    | cached => exact h
  resume := by
    intro w t c e x w' r h _ hr
    cases resume_cases hr with
    | acquired lock _ => exact h.of_eq (World.connection_setLock w t.node · lock _) rfl rfl
    | refreshed => exact h.of_eq (World.connection_setCached w t.node) rfl rfl
    | bootstrapped => exact h.of_eq (World.connection_setCached w t.node) rfl rfl
    | _ => exact h.of_eq (fun _ => rfl) rfl rfl
  finish := by
    intro w t c o h
    show (Deployment.finish w t c o).Listed
    unfold Deployment.finish
    split <;> exact h.of_eq (fun _ => rfl) rfl rfl
  disturb := by
    intro w d w' h hd
    have hd : Deployment.disturb w d = some w' := hd
    cases d with
    | decide position content =>
        rw [Deployment.disturb] at hd
        split at hd
        · cases hd
          exact h.of_eq (fun _ => rfl) rfl rfl
        · cases hd
    | settle position =>
        cases hd
        exact h.of_eq (fun _ => rfl) rfl rfl
    | trim position =>
        rw [Deployment.disturb] at hd
        split at hd
        · cases hd
          exact h.of_eq (fun _ => rfl) rfl rfl
        · cases hd
    | crash node =>
        cases hd
        -- What is committed is opened again.
        have hself : (w.setReplica node (.opened (w.connection node).committed)).connection node =
            .opened (w.connection node).committed :=
          congrArg Replica.connection (Function.update_self node _ w.replicas)
        have hne : ∀ n, n ≠ node → (w.setReplica node
            (.opened (w.connection node).committed)).connection n = w.connection n := by
          intro n hn
          unfold World.connection
          rw [World.replicas_setReplica_ne hn]
        refine ⟨fun n => ?_, fun n => ?_, h.reads⟩
        · show _ = some ((w.setReplica node _).connection n).committed.items
          by_cases hn : n = node
          · subst hn
            rw [hself]
            exact h.last n
          · rw [hne n hn]
            exact h.last n
        · show ((w.setReplica node _).connection n).Clean
          by_cases hn : n = node
          · subst hn
            rw [hself]
            exact fun _ => rfl
          · rw [hne n hn]
            exact h.clean n

/-- **A read that is made while no transaction has rewritten the items** shows what the last
completed transaction has left. -/
theorem reads_see_whole_commands {s : SystemState}
    (h : 𝒮.runtime.Reachable (fun w => ∃ tables, w = World.initial tables) s) :
    ∀ r ∈ s.world.reads, r.rewriting = false → r.Current s.world := by
  have hinit : ∀ w : World, (∃ tables, w = World.initial tables) → w.Listed := by
    rintro w ⟨tables, rfl⟩
    exact World.listed_initial tables
  exact (listed_keeps.reachable hinit h).reads

/-! ## Two runs beside a transaction -/

/-- The tables after the first command. -/
def firstTables : Tables := (Tables.empty.applied 0 firstPut).1

/-- `apply` of the second command; the item is read before the rewriting and after it. -/
def besideRun : List (Action TaskId Call Choice Disturbance) :=
  let a : TaskId := ⟨"a", 0⟩
  let reader : TaskId := ⟨"a", 1⟩
  [.launch a (.apply 1 secondPut)] ++ done a 3 ++ [.launch reader (.storeGet "k")] ++
    done reader 1 ++ done a 8 ++ [.launch reader (.storeGet "k")] ++ done reader 1

/-- The item is read between the deletion of the items and their insertion. -/
def betweenRun : List (Action TaskId Call Choice Disturbance) :=
  let a : TaskId := ⟨"a", 0⟩
  let reader : TaskId := ⟨"a", 1⟩
  [.launch a (.apply 1 secondPut)] ++ done a 5 ++ [.launch reader (.storeGet "k")] ++
    done reader 1 ++ done a 6

/-- The item that a read has shown. -/
def StoreRead.item (r : StoreRead) : Option (String × Option KvValue) :=
  match r.shown with
  | .item key value => some (key, value)
  | .items _ => none

set_option synthInstance.maxSize 256 in
/-- Both reads are whole; the second entry is the `snapshot` of `apply` itself. -/
theorem besideRun_runs :
    ((replicas.runtime.run (fresh _ _ _ _ (World.initial fun _ => firstTables)) besideRun).map
      fun s => s.world.reads.map fun r => (r.commits, r.rewriting, r.item)) =
    some [(0, false, some ("k", some (.str "v"))), (0, false, none),
      (1, false, some ("k", some (.str "w")))] := by
  decide +kernel

theorem reads_see_whole_commands_beside :
    ∃ s : SystemState, (s.world.reads.map fun r => (r.commits, r.rewriting, r.item)) =
        [(0, false, some ("k", some (.str "v"))), (0, false, none),
          (1, false, some ("k", some (.str "w")))] ∧
      ∀ r ∈ s.world.reads, r.rewriting = false → r.Current s.world := by
  obtain ⟨s, hs, hpost⟩ := Option.map_eq_some_iff.mp besideRun_runs
  exact ⟨s, hpost, reads_see_whole_commands (Reachable.run (.init ⟨_, rfl⟩) hs)⟩

set_option synthInstance.maxSize 256 in
/-- The item is reported absent, and no transaction has left it absent. -/
theorem betweenRun_runs :
    ((replicas.runtime.run (fresh _ _ _ _ (World.initial fun _ => firstTables)) betweenRun).map
      fun s => (s.world.reads.map fun r => (r.node, r.item),
        (s.world.contents "a").map fun values => values.lookup "k")) =
    some ([("a", none), ("a", some ("k", none))], [some (.str "v"), some (.str "w")]) := by
  decide +kernel

theorem read_sees_half_a_command :
    ∃ s : SystemState, replicas.runtime.Reachable (fun w => ∃ tables, w = World.initial tables) s ∧
      ∃ r ∈ s.world.reads, ∀ values ∈ s.world.contents r.node, ¬r.shown.Of values := by
  obtain ⟨s, hs, hpost⟩ := Option.map_eq_some_iff.mp betweenRun_runs
  obtain ⟨hreads, hcontents⟩ := Prod.mk.inj hpost
  refine ⟨s, Reachable.run (.init ⟨_, rfl⟩) hs, ?_⟩
  -- The second read is the one of the item.
  have hread : ("a", some ("k", none)) ∈ s.world.reads.map fun r => (r.node, r.item) := by
    rw [hreads]
    simp
  obtain ⟨r, hr, hitem⟩ := List.mem_map.mp hread
  obtain ⟨hnode, hitem⟩ := Prod.mk.inj hitem
  refine ⟨r, hr, fun values hvalues hof => ?_⟩
  rw [hnode] at hvalues
  have hvalue := List.mem_map_of_mem (f := fun values : KvValues => values.lookup "k") hvalues
  rw [hcontents] at hvalue
  unfold StoreRead.item at hitem
  cases hshown : r.shown with
  | items shown =>
      rw [hshown] at hitem
      cases hitem
  | item key value =>
      rw [hshown] at hitem hof
      obtain ⟨rfl, rfl⟩ := Prod.mk.inj (Option.some.inj hitem)
      have hnone : values.lookup "k" = none := hof.symm
      rw [hnone] at hvalue
      simp at hvalue

end DelosLab.Kv
