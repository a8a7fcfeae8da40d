import N8n.Workflow.Connections
import N8n.Lib.Loop
import N8n.Lib.MemoisedExpansion

namespace N8n

open Lib Relation

/-- `collectConnectedNodes` where an own key may hide `hasOwnProperty`. -/
def collectChecked (connections : IConnections) (connectionType : ConnectionType) :
    Nat → String → Int → List String → Memo → Except JsError (List String × Memo)
  | 0, _, _, _, memo => .ok ([], memo)
  | fuel + 1, nodeName, depth, currentPath, memo =>
    if depth = 0 then .ok ([], memo)
    else if connections.has "hasOwnProperty" then .error .typeError
    else
      match connections.get? nodeName with
      | none => .ok ([], memo)
      | some byType =>
        match memo.get? (depth, nodeName) with
        | some cached => .ok (cached, memo)
        | none =>
          -- the list of types has a member if the key is there, so the method is called
          if byType.has "hasOwnProperty" then .error .typeError
          else
            let newDepth := if depth = -1 then depth else depth - 1
            let path := nodeName :: currentPath
            let turn := fun (acc : List String × Memo) (connection : IConnection) =>
              if connection.node ∈ path then .ok acc
              else
                (collectChecked connections connectionType fuel connection.node newDepth path acc.2).map fun sub =>
                  (sub.1.foldr (fun name names => moveToFront names name) (moveToFront acc.1 connection.node), sub.2)
            ((connectionsOfTypes byType (connectionTypes connectionType byType)).foldlM turn ([], memo)).map
              fun result => (result.1, result.2.set (depth, nodeName) result.1)

def getConnectedNodesChecked (connections : IConnections) (nodeName : String) (connectionType : ConnectionType)
    (depth : Int) : Except JsError (List String) :=
  (collectChecked connections connectionType (connections.entries.length + 1) nodeName depth [] .empty).map Prod.fst

variable {nodeName : String}

namespace ConnectedNodes

/-- The hops that are left; -1 stands for any number. -/
def hopsLeft : Budget Int where
  spent d := d = 0
  rest d := if d = -1 then d else d - 1
  le a b := a = b ∨ a ≤ b ∧ (0 ≤ a ∨ b < -1)
  refl _ := .inl rfl
  trans h₁ h₂ := by omega
  rest_le h := by split <;> omega
  rest_mono h₁ h₂ := by split <;> split <;> omega
  spent_of_le h₁ h₂ := by omega

variable (connections : IConnections) (connectionType : ConnectionType)

def neighbours (nodeName : String) : Option (List String) :=
  (connections.get? nodeName).map fun byType =>
    (connectionsOfTypes byType (connectionTypes connectionType byType)).map IConnection.node

/-- A node's own entry leaves `hasOwnProperty` alone. -/
def Ordinary (nodeName : String) : Prop :=
  ∀ byType, connections.get? nodeName = some byType → byType.has "hasOwnProperty" = false

inductive Called (path : List (Int × String)) (d : Int) (c : String) (memo : Memo) : List String → Memo → Prop
  | leaf : d = 0 ∨ neighbours connections connectionType c = none → Called path d c memo [] memo
  | known {found} : memo.get? (d, c) = some found → Called path d c memo found memo
  | expand {targets found memo₁} : d ≠ 0 → neighbours connections connectionType c = some targets →
      memo.get? (d, c) = none → Ordinary connections c →
      Expands (neighbours connections connectionType) hopsLeft ((d, c) :: path) (hopsLeft.rest d) targets [] memo found
        memo₁ →
      (Kept (fun _ v _ => Ordinary connections v) memo → Kept (fun _ v _ => Ordinary connections v) memo₁) →
      Called path d c memo found (memo₁.set (d, c) found)

variable {connections connectionType} {path : List (Int × String)} {fuel : Nat} {d : Int} {c : String}
  {memo memo' : Memo} {found : List String}

theorem Called.keeps (h : Called connections connectionType path d c memo found memo')
    (hmemo : Kept (fun _ v _ => Ordinary connections v) memo) : Kept (fun _ v _ => Ordinary connections v) memo' := by
  cases h with
  | leaf => exact hmemo
  | known => exact hmemo
  | expand _ _ _ hc _ hkept => exact Kept.set (hkept hmemo) hc

theorem Called.turn {cs acc out : List String} {memo₁ : Memo} (hc : c ∉ path.map Prod.snd)
    (h : Called connections connectionType path d c memo found memo₁)
    (hrest : Expands (neighbours connections connectionType) hopsLeft path d cs (mergeFront found (toFront acc c)) memo₁
      out memo') :
    Expands (neighbours connections connectionType) hopsLeft path d (c :: cs) acc memo out memo' := by
  cases h with
  | leaf hleaf => exact .leaf hc hleaf hrest
  | known hfound => exact .known hc hfound hrest
  | expand hd hn hnone _ hin _ => exact .expand hc hd hn hnone hin hrest

/-- A path whose nodes differ and have entries; the fuel is what the entries leave. -/
structure Room (connections : IConnections) (path : List (Int × String)) (fuel : Nat) : Prop where
  nodup : (path.map Prod.snd).Nodup
  entries : ∀ p ∈ path, (connections.get? p.2).isSome
  fuel : fuel + path.length = connections.entries.length + 1

theorem Room.cons (h : Room connections path (fuel + 1)) (hc : c ∉ path.map Prod.snd)
    (hget : (connections.get? c).isSome) : Room connections ((d, c) :: path) fuel := by
  refine ⟨List.nodup_cons.2 ⟨hc, h.nodup⟩, List.forall_mem_cons.2 ⟨hget, h.entries⟩, ?_⟩
  have hfuel := h.fuel
  rw [List.length_cons]
  omega

theorem Room.pos (h : Room connections path fuel) : 0 < fuel := by
  have hle : (path.map Prod.snd).length ≤ connections.keys.length := by
    apply (List.subperm_of_subset h.nodup _).length_le
    intro name hname
    obtain ⟨p, hp, rfl⟩ := List.mem_map.1 hname
    exact (ObjectMap.mem_keys connections).2 (h.entries p hp)
  have hfuel := h.fuel
  rw [List.length_map, ObjectMap.keys_length] at hle
  omega

theorem loop_expands (cs : List IConnection) {acc : List String} {r : List String × Memo}
    (hcall : ∀ {c memo sub}, c ∉ path.map Prod.snd →
      collectChecked connections connectionType fuel c d (path.map Prod.snd) memo = .ok sub →
        Called connections connectionType path d c memo sub.1 sub.2)
    (h : cs.foldlM (fun (acc : List String × Memo) (connection : IConnection) =>
      if connection.node ∈ path.map Prod.snd then .ok acc
      else
        (collectChecked connections connectionType fuel connection.node d (path.map Prod.snd) acc.2).map fun sub =>
          (sub.1.foldr (fun name names => moveToFront names name) (moveToFront acc.1 connection.node), sub.2))
      (acc, memo) = .ok r) :
    Expands (neighbours connections connectionType) hopsLeft path d (cs.map IConnection.node) acc memo r.1 r.2 ∧
      (Kept (fun _ v _ => Ordinary connections v) memo → Kept (fun _ v _ => Ordinary connections v) r.2) := by
  induction cs generalizing acc memo with
  | nil =>
    cases h
    exact ⟨.done, id⟩
  | cons connection cs ih =>
    rw [List.foldlM_cons] at h
    by_cases hc : connection.node ∈ path.map Prod.snd
    · rw [if_pos hc] at h
      obtain ⟨hexp, hkept⟩ := ih h
      exact ⟨.skip hc hexp, hkept⟩
    · rw [if_neg hc] at h
      cases hsub : collectChecked connections connectionType fuel connection.node d (path.map Prod.snd) memo with
      | error e =>
        rw [hsub] at h
        cases h
      | ok sub =>
        rw [hsub] at h
        obtain ⟨hexp, hkept⟩ := ih h
        have hcalled := hcall hc hsub
        exact ⟨hcalled.turn hc hexp, fun hmemo => hkept (hcalled.keeps hmemo)⟩

theorem collectChecked_called (hroom : Room connections path fuel) (hc : c ∉ path.map Prod.snd)
    {r : List String × Memo}
    (h : collectChecked connections connectionType fuel c d (path.map Prod.snd) memo = .ok r) :
    Called connections connectionType path d c memo r.1 r.2 := by
  induction fuel generalizing path c d memo r with
  | zero => exact absurd hroom.pos (Nat.lt_irrefl 0)
  | succ fuel ih =>
    rw [collectChecked] at h
    split at h
    · next hd =>
      cases h
      exact .leaf (.inl hd)
    split at h
    · cases h
    next hd _ =>
    cases hget : connections.get? c with
    | none =>
      simp only [hget] at h
      cases h
      exact .leaf (.inr (by rw [neighbours, hget]; rfl))
    | some byType =>
      simp only [hget] at h
      cases hmemo : memo.get? (d, c) with
      | some cached =>
        simp only [hmemo] at h
        cases h
        exact .known hmemo
      | none =>
        simp only [hmemo] at h
        split at h
        · cases h
        next hown =>
        obtain ⟨result, hloop, rfl⟩ := map_ok h
        have hnext := hroom.cons (d := d) hc (by rw [hget]; rfl)
        obtain ⟨hexp, hkept⟩ := @loop_expands _ _ ((d, c) :: path) _ _ _ _ _ _ (fun hc' hsub => ih hnext hc' hsub) hloop
        refine .expand hd (by rw [neighbours, hget]; rfl) hmemo ?_ hexp hkept
        intro byType' hget'
        rw [hget] at hget'
        cases hget'
        simpa using hown

theorem collectChecked_total (hown : connections.has "hasOwnProperty" = false)
    (hfine : ∀ e v, Leaves (neighbours connections connectionType) hopsLeft d c e v → e ≠ 0 → Ordinary connections v)
    (currentPath : List String) (memo : Memo) :
    ∃ r, collectChecked connections connectionType fuel c d currentPath memo = .ok r := by
  induction fuel generalizing c d currentPath memo with
  | zero => exact ⟨_, rfl⟩
  | succ fuel ih =>
    rw [collectChecked]
    split
    · exact ⟨_, rfl⟩
    next hd =>
    rw [if_neg (by rw [hown]; exact Bool.false_ne_true)]
    cases hget : connections.get? c with
    | none => exact ⟨_, rfl⟩
    | some byType =>
      cases hmemo : memo.get? (d, c) with
      | some cached =>
        exact ⟨_, rfl⟩
      | none =>
        have hbyType := hfine d c .refl hd byType hget
        simp only
        rw [if_neg (by rw [hbyType]; exact Bool.false_ne_true)]
        have hstep : ∀ connection ∈ connectionsOfTypes byType (connectionTypes connectionType byType),
            ∀ currentPath memo, ∃ sub, collectChecked connections connectionType fuel connection.node
              (if d = -1 then d else d - 1) currentPath memo = .ok sub := by
          intro connection hconnection currentPath memo
          refine ih (fun e v hw he => hfine e v (.step hd ?_ hw) he) currentPath memo
          exact ⟨_, by rw [neighbours, hget]; rfl, List.mem_map_of_mem hconnection⟩
        have hturn : ∀ pre connection,
            pre ++ [connection] <+: connectionsOfTypes byType (connectionTypes connectionType byType) →
            ∀ acc : List String × Memo, True → ∃ acc', (if connection.node ∈ c :: currentPath then .ok acc
              else
                (collectChecked connections connectionType fuel connection.node (if d = -1 then d else d - 1)
                  (c :: currentPath) acc.2).map fun sub =>
                    (sub.1.foldr (fun name names => moveToFront names name) (moveToFront acc.1 connection.node),
                      sub.2)) = .ok acc' ∧ True := by
          intro pre connection hpre acc _
          by_cases hc : connection.node ∈ c :: currentPath
          · exact ⟨acc, if_pos hc, trivial⟩
          · obtain ⟨sub, hsub⟩ := hstep connection (hpre.subset (by simp)) (c :: currentPath) acc.2
            exact ⟨_, by rw [if_neg hc, hsub]; rfl, trivial⟩
        obtain ⟨result, hresult, -⟩ := foldlM_rule (fun _ _ => True) trivial hturn (s := ([], memo))
        exact ⟨_, congrArg (Except.map _) hresult⟩

section Reach

variable (connections connectionType)

inductive Hops : Nat → String → String → Prop
  | none {u} : Hops 0 u u
  | hop {k u w v} : Child (neighbours connections connectionType) u w → Hops k w v → Hops (k + 1) u v

variable {connections connectionType}

theorem Leaves.hops {e : Int} {u v : String} (h : Leaves (neighbours connections connectionType) hopsLeft d u e v)
    (he : e ≠ 0) (hd : -1 ≤ d) : ∃ k : Nat, Hops connections connectionType k u v ∧ (d = -1 ∨ k < d) := by
  induction h with
  | refl => exact ⟨0, .none, by omega⟩
  | @step d u w e v hspent hchild _ ih =>
    have hspent : d ≠ 0 := hspent
    obtain ⟨k, hk, hle⟩ := ih he (by simp only [hopsLeft]; split <;> omega)
    refine ⟨k + 1, .hop hchild hk, ?_⟩
    simp only [hopsLeft] at hle
    split at hle <;> omega

theorem Hops.leaves {k : Nat} {u v : String} (h : Hops connections connectionType k u v) (hk : d = -1 ∨ k < d) :
    ∃ e, Leaves (neighbours connections connectionType) hopsLeft d u e v ∧ e ≠ 0 := by
  induction h generalizing d with
  | none => exact ⟨d, .refl, by omega⟩
  | @hop k u w v hchild _ ih =>
    obtain ⟨e, hw, he⟩ := @ih (hopsLeft.rest d) (by simp only [hopsLeft]; split <;> omega)
    have hd : ¬ hopsLeft.spent d := by
      simp only [hopsLeft]
      omega
    exact ⟨e, .step hd hchild hw, he⟩

theorem Within.hops {u v : String} (h : Within (neighbours connections connectionType) hopsLeft d u v) (hd : -1 ≤ d) :
    ∃ k : Nat, Hops connections connectionType k u v ∧ (d = -1 ∨ k ≤ d) := by
  induction h with
  | @one d u v hspent hchild =>
    have hspent : d ≠ 0 := hspent
    exact ⟨1, .hop hchild .none, by omega⟩
  | @more d u w v hspent hchild _ ih =>
    have hspent : d ≠ 0 := hspent
    obtain ⟨k, hk, hle⟩ := ih (by simp only [hopsLeft]; split <;> omega)
    refine ⟨k + 1, .hop hchild hk, ?_⟩
    simp only [hopsLeft] at hle
    split at hle <;> omega

theorem Hops.within {k : Nat} {u v : String} (h : Hops connections connectionType k u v) (hk : d = -1 ∨ k ≤ d)
    (hne : v ≠ u) : Within (neighbours connections connectionType) hopsLeft d u v := by
  induction h generalizing d with
  | none => exact absurd rfl hne
  | @hop k u w v hchild hw ih =>
    have hd : ¬ hopsLeft.spent d := by
      simp only [hopsLeft]
      omega
    by_cases hvw : v = w
    · rw [hvw]
      exact .one hd hchild
    · refine .more hd hchild (ih ?_ hvw)
      simp only [hopsLeft]
      split <;> omega

def ListsReachable (connections : IConnections) (nodeName : String) (connectionType : ConnectionType) (depth : Int) :
    Prop :=
  ∃ names, getConnectedNodesChecked connections nodeName connectionType depth = .ok names ∧ names.Nodup ∧
    ∀ v, v ∈ names ↔ v ≠ nodeName ∧ ∃ k : Nat, Hops connections connectionType k nodeName v ∧ (depth = -1 ∨ k ≤ depth)

theorem Room.nil (connections : IConnections) : Room connections [] (connections.entries.length + 1) :=
  ⟨List.nodup_nil, List.forall_mem_nil _, rfl⟩

def NothingHidden (connections : IConnections) (nodeName : String) (connectionType : ConnectionType) (depth : Int) :
    Prop :=
  connections.has "hasOwnProperty" = false ∧
    ∀ (v : String) (k : Nat), Hops connections connectionType k nodeName v → (depth = -1 ∨ k < depth) →
      Ordinary connections v

theorem hops_of_none {v : String} {k : Nat} (hn : neighbours connections connectionType nodeName = none)
    (h : Hops connections connectionType k nodeName v) : v = nodeName := by
  cases h with
  | none => rfl
  | hop hchild =>
    obtain ⟨targets, ht, -⟩ := hchild
    rw [hn] at ht
    cases ht

theorem getConnectedNodesChecked_root {depth : Int} {names : List String}
    (h : getConnectedNodesChecked connections nodeName connectionType depth = .ok names) :
    (depth = 0 ∨ neighbours connections connectionType nodeName = none) ∧ names = [] ∨
      ∃ targets memo, depth ≠ 0 ∧ neighbours connections connectionType nodeName = some targets ∧
        Ordinary connections nodeName ∧ Kept (fun _ v _ => Ordinary connections v) memo ∧
          Expands (neighbours connections connectionType) hopsLeft [(depth, nodeName)] (hopsLeft.rest depth) targets []
            .empty names memo := by
  obtain ⟨⟨names', memo'⟩, hr, rfl⟩ := map_ok h
  have hcalled : Called connections connectionType [] depth nodeName .empty names' memo' :=
    collectChecked_called (Room.nil connections) List.not_mem_nil hr
  have hempty : Kept (fun _ v _ => Ordinary connections v) (.empty : Memo) := fun {d v found} hk => by cases hk
  cases hcalled with
  | leaf hleaf => exact .inl ⟨hleaf, rfl⟩
  | known hfound => cases hfound
  | expand hd hn _ hstart hexp hkept => exact .inr ⟨_, _, hd, hn, hstart, hkept hempty, hexp⟩

theorem nothingHidden_of_ok {depth : Int} {names : List String} (hdepth : depth ≠ 0)
    (h : getConnectedNodesChecked connections nodeName connectionType depth = .ok names) :
    NothingHidden connections nodeName connectionType depth := by
  have hown : connections.has "hasOwnProperty" = false := by
    obtain ⟨r, hr, -⟩ := map_ok h
    rw [collectChecked, if_neg hdepth] at hr
    split at hr
    · cases hr
    · next hown => simpa using hown
  refine ⟨hown, fun v k hk hle => ?_⟩
  by_cases hv : neighbours connections connectionType v = none
  · intro byType hget
    rw [neighbours, hget] at hv
    cases hv
  rcases getConnectedNodesChecked_root h with ⟨hleaf, -⟩ | ⟨targets, memo, hd, hn, hstart, hkept, hexp⟩
  · rw [hops_of_none (hleaf.resolve_left hdepth) hk] at hv
    exact absurd (hleaf.resolve_left hdepth) hv
  · obtain ⟨e, hw, he⟩ := Hops.leaves hk hle
    obtain ⟨e', -, heq | hk⟩ := expanded_of_leaves hd hn hexp hw he hv ⟨depth, .inl rfl, .inl rfl⟩
    · cases heq
      exact hstart
    · obtain ⟨found, hfound⟩ := Option.isSome_iff_exists.1 hk
      exact hkept hfound

theorem getConnectedNodes_lists_iff (connections : IConnections) (nodeName : String) (connectionType : ConnectionType)
    {depth : Int} (hdepth : -1 ≤ depth) :
    ListsReachable connections nodeName connectionType depth ↔
      depth = 0 ∨ NothingHidden connections nodeName connectionType depth := by
  constructor
  · rintro ⟨names, hnames, -⟩
    by_cases hzero : depth = 0
    · exact .inl hzero
    · exact .inr (nothingHidden_of_ok hzero hnames)
  · intro h
    obtain ⟨names, hnames⟩ : ∃ names, getConnectedNodesChecked connections nodeName connectionType depth = .ok names := by
      rcases h with rfl | ⟨hown, hfine⟩
      · exact ⟨[], rfl⟩
      · obtain ⟨r, hr⟩ := @collectChecked_total _ _ (connections.entries.length + 1) _ _ hown (fun e v hw he => by
          obtain ⟨k, hk, hle⟩ := Leaves.hops hw he hdepth
          exact hfine v k hk hle) [] .empty
        exact ⟨r.1, by rw [getConnectedNodesChecked, hr]; rfl⟩
    refine ⟨names, hnames, ?_⟩
    rcases getConnectedNodesChecked_root hnames with ⟨hleaf, rfl⟩ | ⟨targets, memo, hd, hn, -, -, hexp⟩
    · refine ⟨List.nodup_nil, fun v => ⟨(fun hv => by cases hv), ?_⟩⟩
      rintro ⟨hne, k, hk, hle⟩
      rcases hleaf with rfl | hnone
      · obtain rfl : k = 0 := by omega
        cases hk
        exact absurd rfl hne
      · exact absurd (hops_of_none hnone hk) hne
    · obtain ⟨hnodup, hmem⟩ := expands_lists hd hn hexp
      refine ⟨hnodup, fun v => (hmem v).trans (and_congr_right fun hne => ⟨fun hw => Within.hops hw hdepth, ?_⟩)⟩
      rintro ⟨k, hk, hle⟩
      exact Hops.within hk hle hne

def hidden : IConnections := .ofList [("hasOwnProperty", .ofList [("main", [some [⟨"A", "main", 0⟩]])])]

theorem hidden_not_listed : ¬ ListsReachable hidden "A" (.type "main") (-1) := by
  rintro ⟨names, hnames, -⟩
  cases hnames

/-- A chain with a shortcut from its first node to its last. -/
def shortcut : IConnections :=
  .ofList [("A", .ofList [("main", [some [⟨"C", "main", 0⟩, ⟨"B", "main", 0⟩]])]),
    ("B", .ofList [("main", [none, some [⟨"C", "main", 0⟩]])])]

theorem shortcut_listed : ListsReachable shortcut "A" (.type "main") (-1) ↔
    (-1 : Int) = 0 ∨ NothingHidden shortcut "A" (.type "main") (-1) :=
  getConnectedNodes_lists_iff shortcut "A" (.type "main") (by decide)

/-- Where the connections have no cycle, a node stands behind those below it. -/
theorem getConnectedNodes_ordered (connections : IConnections) (connectionType : ConnectionType) (nodeName : String)
    (hacyclic : ∀ v, ¬ TransGen (Child (neighbours connections connectionType)) v v) {names : List String}
    (h : getConnectedNodesChecked connections nodeName connectionType (-1) = .ok names) {u v : String} (hu : u ∈ names)
    (huv : TransGen (Child (neighbours connections connectionType)) u v) : names.idxOf v < names.idxOf u := by
  rcases getConnectedNodesChecked_root h with ⟨-, rfl⟩ | ⟨targets, memo, hd, hn, -, -, hexp⟩
  · cases hu
  · have hin : ∀ p ∈ [((-1 : Int), nodeName)], ∀ c ∈ targets,
        TransGen (Child (neighbours connections connectionType)) p.2 c := by
      intro p hp c hc
      obtain rfl := List.mem_singleton.1 hp
      exact .single ⟨targets, hn, hc⟩
    obtain ⟨hbelow, -⟩ := hexp.ordered hacyclic ⟨hd, rfl⟩ hin (fun {d v found} hk => by cases hk) .nil
    exact hbelow.idxOf_lt hacyclic hu huv

theorem shortcut_child {u v : String} (h : Child (neighbours shortcut (.type "main")) u v) :
    u = "A" ∧ v ≠ "A" ∨ u = "B" ∧ v = "C" := by
  obtain ⟨targets, hn, hv⟩ := h
  obtain ⟨byType, hget, rfl⟩ := Option.map_eq_some_iff.1 hn
  have hmem := (ObjectMap.mem_entries _).2 hget
  rcases List.mem_cons.1 hmem with heq | hmem
  · cases heq
    refine .inr ⟨rfl, ?_⟩
    simpa [connectionsOfTypes, connectionTypes, ObjectMap.ofList, ObjectMap.get?_set] using hv
  · cases List.mem_singleton.1 hmem
    refine .inl ⟨rfl, ?_⟩
    rintro rfl
    simp [connectionsOfTypes, connectionTypes, ObjectMap.ofList, ObjectMap.get?_set] at hv

theorem shortcut_acyclic (v : String) : ¬ TransGen (Child (neighbours shortcut (.type "main"))) v v := by
  have hbelow : ∀ {u v}, TransGen (Child (neighbours shortcut (.type "main"))) u v →
      u = "A" ∧ v ≠ "A" ∨ u = "B" ∧ v = "C" := by
    intro u v h
    induction h with
    | single h => exact shortcut_child h
    | tail _ h ih =>
      rcases shortcut_child h with ⟨rfl, -⟩ | ⟨rfl, rfl⟩
      · simp at ih
      · rcases ih with ⟨rfl, -⟩ | ⟨-, hc⟩
        · exact .inl ⟨rfl, by decide⟩
        · exact absurd hc (by decide)
  intro h
  rcases hbelow h with ⟨rfl, hne⟩ | ⟨rfl, hc⟩
  · exact hne rfl
  · exact absurd hc (by decide)

theorem shortcut_ordered : ["C", "B"].idxOf "C" < ["C", "B"].idxOf "B" :=
  getConnectedNodes_ordered shortcut (.type "main") "A" shortcut_acyclic (by decide +kernel) (by decide)
    (.single ⟨["C"], by decide +kernel, by decide⟩)

end Reach

end ConnectedNodes

end N8n
