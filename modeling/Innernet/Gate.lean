import Innernet.Client
import Mathlib

/-! The data-traffic gate of `client-core/src/gate.rs`: the scripts it gives to `nft`, what they do to
a ruleset, and what a sequence of calls leaves of them. -/
namespace Innernet.Gate

open Function

structure NftSet where
  spec : String
  elements : List AllowedIp

structure NftChain where
  spec : String
  rules : List String

structure NftTable where
  sets : String → Option NftSet
  chains : String → Option NftChain

/-- The tables of the family `inet`. -/
abbrev Ruleset := String → Option NftTable

/-- What a script asks of one table. -/
inductive Op where
  | addSet (name spec : String)
  | addChain (name spec : String)
  | addRule (chain rule : String)
  | addElement (name : String) (elements : List AllowedIp)
  | deleteElement (name : String) (element : AllowedIp)

inductive Statement where
  | addTable (table : String)
  | deleteTable (table : String)
  | within (table : String) (op : Op)

/-- Elements that are present are not added again. -/
def insertAll (elements new : List AllowedIp) : List AllowedIp :=
  elements ++ new.dedup.filter (· ∉ elements)

/-- What `nft` does to a table; nothing when it fails. -/
def Op.apply : Op → NftTable → Option NftTable
  | addSet name spec, t => some (match t.sets name with
    | some _ => t
    | none => { t with sets := update t.sets name (some ⟨spec, []⟩) })
  | addChain name spec, t => some (match t.chains name with
    | some _ => t
    | none => { t with chains := update t.chains name (some ⟨spec, []⟩) })
  | addRule chain rule, t => (t.chains chain).map fun c =>
    { t with chains := update t.chains chain (some { c with rules := c.rules ++ [rule] }) }
  | addElement name new, t => (t.sets name).map fun s =>
    { t with sets := update t.sets name (some { s with elements := insertAll s.elements new }) }
  | deleteElement name element, t => (t.sets name).bind fun s =>
    let left := s.elements.filter (· ≠ element)
    if element ∈ s.elements then
      some { t with sets := update t.sets name (some { s with elements := left }) }
    else none

def NftTable.empty : NftTable := ⟨fun _ => none, fun _ => none⟩

def Statement.apply (rs : Ruleset) : Statement → Option Ruleset
  | addTable table => some (match rs table with
    | some _ => rs
    | none => update rs table (some .empty))
  | deleteTable table => (rs table).map fun _ => update rs table none
  | within table op => (rs table).bind fun t => (op.apply t).map fun t => update rs table (some t)

/-- `run_nft`: a script that fails changes nothing. -/
def runNft (rs : Ruleset) (script : List Statement) : Except Unit Unit × Ruleset :=
  match script.foldlM Statement.apply rs with
  | some rs => (.ok (), rs)
  | none => (.error (), rs)

def tableName (interface : String) : String := "innernet_pq_data_" ++ interface

/-- `split_by_family`. -/
def splitByFamily (ips : List AllowedIp) : List AllowedIp × List AllowedIp :=
  (ips.filter fun ip => match ip.address with | .v4 _ => true | .v6 _ => false,
    ips.filter fun ip => match ip.address with | .v4 _ => false | .v6 _ => true)

def setV4 : String := "type ipv4_addr; flags interval;"
def setV6 : String := "type ipv6_addr; flags interval;"

/-- A chain with its hook and its rules. -/
structure ChainSpec where
  name : String
  spec : String
  rules : List String

def iif (name rest : String) : String := "iifname \"" ++ name ++ "\" " ++ rest
def oif (name rest : String) : String := "oifname \"" ++ name ++ "\" " ++ rest

def chains (name : String) : List ChainSpec :=
  [⟨"input", "type filter hook input priority filter + 10; policy accept;",
    [iif name "ip saddr @blocked_v4 drop", iif name "ip6 saddr @blocked_v6 drop"]⟩,
   ⟨"output", "type filter hook output priority filter + 10; policy accept;",
    [oif name "ip daddr @blocked_v4 drop", oif name "ip6 daddr @blocked_v6 drop"]⟩,
   ⟨"forward", "type filter hook forward priority filter + 10; policy accept;",
    [iif name "ip saddr @blocked_v4 drop", iif name "ip6 saddr @blocked_v6 drop",
     oif name "ip daddr @blocked_v4 drop", oif name "ip6 daddr @blocked_v6 drop"]⟩]

/-- The elements of a set, when there are any. -/
def elements (name : String) (ips : List AllowedIp) : List Op :=
  if ips = [] then [] else [.addElement name ips]

def addRules (c : ChainSpec) : List Op := c.rules.map (.addRule c.name)

/-- What `data_ruleset` has in its table; each chain has its rules in its block. -/
def dataRuleset (interface : String) (blocked : List AllowedIp) : List Op :=
  [.addSet "blocked_v4" setV4] ++ elements "blocked_v4" (splitByFamily blocked).1 ++
    [.addSet "blocked_v6" setV6] ++ elements "blocked_v6" (splitByFamily blocked).2 ++
    (chains interface).flatMap fun c => .addChain c.name c.spec :: addRules c

/-- What `ensure_exists_ruleset` adds to its table. -/
def ensureExistsRuleset (interface : String) : List Op :=
  [.addSet "blocked_v4" setV4, .addSet "blocked_v6" setV6] ++
    ((chains interface).map fun c => .addChain c.name c.spec) ++ (chains interface).flatMap addRules

def withinTable (interface : String) (ops : List Op) : List Statement :=
  ops.map (.within (tableName interface))

/-- `clear`. -/
def clear (rs : Ruleset) (interface : String) : Ruleset :=
  (runNft rs [.deleteTable (tableName interface)]).2

/-- `apply_all`. -/
def applyAll (rs : Ruleset) (interface : String) (blocked : List AllowedIp) :
    Except Unit Unit × Ruleset :=
  runNft (clear rs interface)
    (.addTable (tableName interface) :: withinTable interface (dataRuleset interface blocked))

/-- `block`. -/
def block (rs : Ruleset) (interface : String) (ips : List AllowedIp) : Except Unit Unit × Ruleset :=
  match runNft rs (.addTable (tableName interface) ::
      withinTable interface (ensureExistsRuleset interface)) with
  | (.error e, rs) => (.error e, rs)
  | (.ok (), rs) =>
    let script := elements "blocked_v4" (splitByFamily ips).1 ++
      elements "blocked_v6" (splitByFamily ips).2
    if script.isEmpty then (.ok (), rs) else runNft rs (withinTable interface script)

/-- A script that deletes one element; its failure is passed by. -/
def deleteElement (interface name : String) (rs : Ruleset) (ip : AllowedIp) : Ruleset :=
  (runNft rs (withinTable interface [.deleteElement name ip])).2

/-- `release`. -/
def release (rs : Ruleset) (interface : String) (ips : List AllowedIp) : Ruleset :=
  let (v4, v6) := splitByFamily ips
  v6.foldl (deleteElement interface "blocked_v6") (v4.foldl (deleteElement interface "blocked_v4") rs)

inductive Call where
  | block (ips : List AllowedIp)
  | release (ips : List AllowedIp)
  | applyAll (blocked : List AllowedIp)

def Call.apply (interface : String) (rs : Ruleset) : Call → Ruleset
  | block ips => (Gate.block rs interface ips).2
  | release ips => Gate.release rs interface ips
  | applyAll blocked => (Gate.applyAll rs interface blocked).2

section Chains

variable {t : NftTable} {l : List ChainSpec} {c : ChainSpec} {name : String}

def runOps (ops : List Op) (t : NftTable) : Option NftTable := ops.foldlM (fun t op => op.apply t) t

theorem runOps_append {ops ops' : List Op} :
    runOps (ops ++ ops') t = (runOps ops t).bind (runOps ops') := by
  rw [runOps, List.foldlM_append]
  rfl

theorem runOps_cons {op : Op} {ops : List Op} :
    runOps (op :: ops) t = (op.apply t).bind (runOps ops) := rfl

/-- The rules these chains have for a name. -/
def rulesOf (l : List ChainSpec) (name : String) : List String :=
  (l.filter fun c => c.name = name).flatMap ChainSpec.rules

/-- The chain with this name, there or added, before any rule is. -/
def opened (l : List ChainSpec) (chains : String → Option NftChain) (name : String) :
    Option NftChain :=
  chains name <|> (l.find? fun c => c.name = name).map fun c => ⟨c.spec, []⟩

/-- The chains with all rules added behind those that are there. -/
def grown (l : List ChainSpec) (chains : String → Option NftChain) (name : String) :
    Option NftChain :=
  (opened l chains name).map fun c => { c with rules := c.rules ++ rulesOf l name }

theorem addRules_run {ch : NftChain} (present : t.chains name = some ch) (rules : List String) :
    runOps (rules.map (.addRule name)) t = some { t with
      chains := update t.chains name (some { ch with rules := ch.rules ++ rules }) } := by
  induction rules generalizing t ch with
  | nil =>
    rw [List.append_nil, ← present, update_eq_self]
    rfl
  | cons rule rules ih =>
    have next : (Op.addRule name rule).apply t = some { t with
        chains := update t.chains name (some { ch with rules := ch.rules ++ [rule] }) } := by
      rw [Op.apply, present]
      rfl
    rw [List.map_cons, runOps_cons, next, Option.bind_some, ih (update_self ..), update_idem]
    simp

theorem addChain_run {spec : String} : (Op.addChain name spec).apply t = some { t with
    chains := update t.chains name ((t.chains name) <|> some ⟨spec, []⟩) } := by
  rw [Op.apply]
  cases present : t.chains name with
  | none => rfl
  | some ch =>
    change some t = some { t with chains := update t.chains name (some ch) }
    rw [← present, update_eq_self]

theorem rulesOf_cons : rulesOf (c :: l) name =
    (if c.name = name then c.rules else []) ++ rulesOf l name := by
  unfold rulesOf
  by_cases same : c.name = name
  · simp [same]
  · simp [same]

/-- Chains that are added with their rules, one after another. -/
theorem blocks_run : runOps (l.flatMap fun c => .addChain c.name c.spec :: addRules c) t =
    some { t with chains := grown l t.chains } := by
  induction l generalizing t with
  | nil =>
    have same : grown [] t.chains = t.chains := by
      funext name
      cases present : t.chains name <;> simp [grown, opened, rulesOf, present]
    rw [same]
    rfl
  | cons c l ih =>
    obtain ⟨ch, here⟩ : ∃ ch, (t.chains c.name <|> some ⟨c.spec, []⟩) = some ch := by
      cases present : t.chains c.name with
      | none => exact ⟨_, rfl⟩
      | some ch => exact ⟨ch, rfl⟩
    rw [List.flatMap_cons, runOps_append, runOps_cons, addChain_run, here, Option.bind_some, addRules,
      addRules_run (update_self ..), Option.bind_some, ih]
    congr 2
    funext name
    rw [grown, grown, opened, opened, rulesOf_cons, update_idem]
    dsimp only
    by_cases same : c.name = name
    · subst same
      rw [update_self, List.find?_cons_of_pos (by simp), Option.map_some, here]
      simp
    · rw [update_of_ne (Ne.symm same), List.find?_cons_of_neg (by simpa using same), if_neg same,
        List.nil_append]

/-- Chains that are added before any of their rules. -/
theorem addChains_run : runOps (l.map fun c => .addChain c.name c.spec) t =
    some { t with chains := opened l t.chains } := by
  induction l generalizing t with
  | nil =>
    have same : opened [] t.chains = t.chains := by
      funext name
      cases present : t.chains name <;> simp [opened, present]
    rw [same]
    rfl
  | cons c l ih =>
    rw [List.map_cons, runOps_cons, addChain_run, Option.bind_some, ih]
    congr 2
    funext name
    rw [opened, opened]
    dsimp only
    by_cases same : c.name = name
    · subst same
      rw [update_self, List.find?_cons_of_pos (by simp), Option.map_some]
      cases t.chains c.name <;> rfl
    · rw [update_of_ne (Ne.symm same), List.find?_cons_of_neg (by simpa using same)]

/-- The rules of chains that are there. -/
theorem addRules_all (present : ∀ c ∈ l, t.chains c.name ≠ none) : runOps (l.flatMap addRules) t =
    some { t with chains := fun name =>
      (t.chains name).map fun c => { c with rules := c.rules ++ rulesOf l name } } := by
  induction l generalizing t with
  | nil =>
    have same : (fun name => (t.chains name).map fun c =>
        { c with rules := c.rules ++ rulesOf [] name }) = t.chains := by
      funext name
      simp [rulesOf]
    rw [same]
    rfl
  | cons c l ih =>
    rw [List.forall_mem_cons] at present
    obtain ⟨ch, here⟩ := Option.ne_none_iff_exists'.mp present.1
    have kept : ∀ c' ∈ l, update t.chains c.name
        (some { ch with rules := ch.rules ++ c.rules }) c'.name ≠ none := by
      intro c' member
      by_cases same : c'.name = c.name
      · rw [same, update_self]
        simp
      · rw [update_of_ne same]
        exact present.2 c' member
    rw [List.flatMap_cons, runOps_append, addRules, addRules_run here, Option.bind_some, ih kept]
    congr 2
    funext name
    dsimp only
    rw [rulesOf_cons]
    by_cases same : c.name = name
    · subst same
      rw [update_self, here]
      simp
    · rw [update_of_ne (Ne.symm same), if_neg same, List.nil_append]

/-- Both ways to write the chains come to the same. -/
theorem chains_run : runOps ((l.map fun c => .addChain c.name c.spec) ++ l.flatMap addRules) t =
    runOps (l.flatMap fun c => .addChain c.name c.spec :: addRules c) t := by
  have present : ∀ c ∈ l, opened l t.chains c.name ≠ none := by
    intro c member
    unfold opened
    cases t.chains c.name with
    | some ch => simp
    | none =>
      have found : (l.find? fun c' => c'.name = c.name) ≠ none := by
        rw [ne_eq, List.find?_eq_none]
        intro none_
        exact none_ c member (by simp)
      simpa using found
  rw [runOps_append, addChains_run, Option.bind_some, addRules_all present, blocks_run]
  rfl

end Chains

/-- What the gate of an interface holds: the blocked addresses, and how often its rules are there. -/
structure Contents where
  v4 : List AllowedIp
  v6 : List AllowedIp
  copies : Nat

namespace Contents

/-- The table of an interface whose gate holds this. -/
def table (g : Contents) (interface : String) : NftTable where
  sets name :=
    if name = "blocked_v4" then some ⟨setV4, g.v4⟩
    else if name = "blocked_v6" then some ⟨setV6, g.v6⟩ else none
  chains name := ((chains interface).find? fun c => c.name = name).map fun c =>
    ⟨c.spec, (List.replicate g.copies (rulesOf (chains interface) name)).flatten⟩

def none_ : Contents := ⟨[], [], 0⟩

/-- What a call makes of it. -/
def step (g : Contents) : Call → Contents
  | .block ips => ⟨insertAll g.v4 (splitByFamily ips).1, insertAll g.v6 (splitByFamily ips).2,
      g.copies + 1⟩
  | .release ips => ⟨g.v4.filter (· ∉ (splitByFamily ips).1), g.v6.filter (· ∉ (splitByFamily ips).2),
      g.copies⟩
  | .applyAll blocked => ⟨insertAll [] (splitByFamily blocked).1,
      insertAll [] (splitByFamily blocked).2, 1⟩

end Contents

section Simulation

variable {interface : String} {rs : Ruleset} {g : Contents} {t t' : NftTable}

/-- A script on a table that is there. -/
theorem within_run {ops : List Op} (present : rs (tableName interface) = some t) :
    (withinTable interface ops).foldlM Statement.apply rs =
      (runOps ops t).map fun t' => update rs (tableName interface) (some t') := by
  induction ops generalizing rs t with
  | nil =>
    rw [runOps, List.foldlM_nil]
    change some rs = some (update rs (tableName interface) (some t))
    rw [← present, update_eq_self]
  | cons op ops ih =>
    rw [withinTable, List.map_cons, List.foldlM_cons, runOps_cons, Statement.apply, present,
      Option.bind_some]
    cases done : op.apply t with
    | none => rfl
    | some t' =>
      have next := @ih (update rs (tableName interface) (some t')) t' (update_self ..)
      simp only [update_idem] at next
      exact next

theorem runNft_within {ops : List Op} (present : rs (tableName interface) = some t)
    (done : runOps ops t = some t') : runNft rs (withinTable interface ops) =
      (.ok (), update rs (tableName interface) (some t')) := by
  rw [runNft, within_run present, done]
  rfl

theorem addTable_apply : (Statement.addTable (tableName interface)).apply rs =
    some (update rs (tableName interface) (some ((rs (tableName interface)).getD .empty))) := by
  rw [Statement.apply]
  cases present : rs (tableName interface) with
  | none => rfl
  | some t =>
    change some rs = some (update rs (tableName interface) (some t))
    rw [← present, update_eq_self]

/-- A script that adds its table first. -/
theorem runNft_add {ops : List Op}
    (done : runOps ops ((rs (tableName interface)).getD .empty) = some t') :
    runNft rs (.addTable (tableName interface) :: withinTable interface ops) =
      (.ok (), update rs (tableName interface) (some t')) := by
  rw [runNft, List.foldlM_cons, addTable_apply]
  change (match (withinTable interface ops).foldlM Statement.apply _ with
    | some rs => _
    | none => _) = _
  rw [within_run (update_self ..), done]
  simp

theorem addElement_run {spec : String} {old new : List AllowedIp} {name : String}
    (present : t.sets name = some ⟨spec, old⟩) : runOps (elements name new) t =
      some { t with sets := update t.sets name (some ⟨spec, insertAll old new⟩) } := by
  unfold elements
  split
  · rename_i empty
    have same : insertAll old new = old := by simp [insertAll, empty]
    rw [same, ← present, update_eq_self]
    rfl
  · rw [runOps_cons, Op.apply, present]
    rfl

theorem table_v4 (v4 : List AllowedIp) : ({ g with v4 } : Contents).table interface =
    { g.table interface with
      sets := update (g.table interface).sets "blocked_v4" (some ⟨setV4, v4⟩) } := by
  refine congrArg (fun sets => NftTable.mk sets (g.table interface).chains) (funext fun name => ?_)
  by_cases same : name = "blocked_v4"
  · rw [same, update_self]
    rfl
  · rw [update_of_ne same]
    simp only [Contents.table, if_neg same]

theorem table_v6 (v6 : List AllowedIp) : ({ g with v6 } : Contents).table interface =
    { g.table interface with
      sets := update (g.table interface).sets "blocked_v6" (some ⟨setV6, v6⟩) } := by
  refine congrArg (fun sets => NftTable.mk sets (g.table interface).chains) (funext fun name => ?_)
  by_cases same : name = "blocked_v6"
  · rw [same, update_self]
    rfl
  · rw [update_of_ne same]
    simp only [Contents.table, if_neg same]

theorem v4_run {new : List AllowedIp} : runOps (elements "blocked_v4" new) (g.table interface) =
    some ({ g with v4 := insertAll g.v4 new }.table interface) := by
  rw [addElement_run rfl, table_v4 (insertAll g.v4 new)]

theorem v6_run {new : List AllowedIp} : runOps (elements "blocked_v6" new) (g.table interface) =
    some ({ g with v6 := insertAll g.v6 new }.table interface) := by
  rw [addElement_run rfl, table_v6 (insertAll g.v6 new)]

theorem grown_table : grown (chains interface) (g.table interface).chains =
    ({ g with copies := g.copies + 1 }.table interface).chains := by
  funext name
  unfold grown opened
  cases found : (chains interface).find? fun c => c.name = name with
  | none => simp [Contents.table, found]
  | some c => simp [Contents.table, found, List.replicate_succ']

theorem grown_none : grown (chains interface) (fun _ => none) =
    ({ g with copies := 1 }.table interface).chains := by
  funext name
  unfold grown opened
  cases found : (chains interface).find? fun c => c.name = name with
  | none => simp [Contents.table, found]
  | some c => simp [Contents.table, found]

/-- A table that is there gets every rule once more. -/
theorem ensure_present : runOps (ensureExistsRuleset interface) (g.table interface) =
    some ({ g with copies := g.copies + 1 }.table interface) := by
  have sets : runOps [.addSet "blocked_v4" setV4, .addSet "blocked_v6" setV6] (g.table interface) =
      some (g.table interface) := rfl
  rw [ensureExistsRuleset, List.append_assoc, runOps_append, sets, Option.bind_some, chains_run,
    blocks_run, grown_table]
  rfl

theorem sets_table : update (update (fun _ => none) "blocked_v4" (some ⟨setV4, g.v4⟩)) "blocked_v6"
    (some ⟨setV6, g.v6⟩) = (g.table interface).sets := by
  funext name
  by_cases v6 : name = "blocked_v6"
  · rw [v6, update_self]
    rfl
  · by_cases v4 : name = "blocked_v4"
    · rw [update_of_ne v6, v4, update_self]
      rfl
    · rw [update_of_ne v6, update_of_ne v4]
      simp only [Contents.table, if_neg v4, if_neg v6]

theorem sets_empty : runOps [.addSet "blocked_v4" setV4, .addSet "blocked_v6" setV6] .empty =
    some { Contents.none_.table interface with chains := fun _ => none } :=
  congrArg (fun sets => some (NftTable.mk sets fun _ => none)) (sets_table (g := .none_))

theorem ensure_absent : runOps (ensureExistsRuleset interface) .empty =
    some (({ Contents.none_ with copies := 1 } : Contents).table interface) := by
  rw [ensureExistsRuleset, List.append_assoc, runOps_append, @sets_empty interface,
    Option.bind_some, chains_run, blocks_run, grown_none (g := Contents.none_)]
  rfl

/-- The block form comes to the same table, with its elements. -/
theorem data_absent {blocked : List AllowedIp} : runOps (dataRuleset interface blocked) .empty =
    some ((g.step (.applyAll blocked)).table interface) := by
  have first : runOps [.addSet "blocked_v4" setV4] .empty =
      some ⟨update (fun _ => none) "blocked_v4" (some ⟨setV4, []⟩), fun _ => none⟩ := rfl
  have second (new : List AllowedIp) : runOps (elements "blocked_v4" new)
      ⟨update (fun _ => none) "blocked_v4" (some ⟨setV4, []⟩), fun _ => none⟩ =
        some ⟨update (fun _ => none) "blocked_v4" (some ⟨setV4, insertAll [] new⟩),
          fun _ => none⟩ := by
    rw [addElement_run rfl]
    simp only [update_idem]
  have third (sets : String → Option NftSet) (absent : sets "blocked_v6" = none) :
      runOps [.addSet "blocked_v6" setV6] ⟨sets, fun _ => none⟩ =
        some ⟨update sets "blocked_v6" (some ⟨setV6, []⟩), fun _ => none⟩ := by
    rw [runOps_cons, Op.apply]
    simp only [absent]
    rfl
  have fourth (sets : String → Option NftSet) (new : List AllowedIp) :
      runOps (elements "blocked_v6" new)
        ⟨update sets "blocked_v6" (some ⟨setV6, []⟩), fun _ => none⟩ =
          some ⟨update sets "blocked_v6" (some ⟨setV6, insertAll [] new⟩), fun _ => none⟩ := by
    have here : update sets "blocked_v6" (some ⟨setV6, []⟩) "blocked_v6" = some ⟨setV6, []⟩ :=
      update_self ..
    rw [addElement_run here]
    simp only [update_idem]
  simp only [dataRuleset, runOps_append, first, second, Option.bind_some]
  rw [third _ rfl, Option.bind_some, fourth, Option.bind_some, blocks_run,
    grown_none (g := g.step (.applyAll blocked))]
  have sets := @sets_table interface (g.step (.applyAll blocked))
  exact congrArg (fun sets => some (NftTable.mk sets
    ((g.step (.applyAll blocked)).table interface).chains)) sets

/-- The gate before its first call. -/
def Start (rs : Ruleset) (interface : String) : Option Contents → Prop
  | none => rs (tableName interface) = none
  | some g => rs (tableName interface) = some (g.table interface)

theorem block_apply {ips : List AllowedIp} {start : Option Contents}
    (here : Start rs interface start) : (Call.block ips).apply interface rs =
      update rs (tableName interface)
        (some (((start.getD .none_).step (.block ips)).table interface)) := by
  have ensured : runNft rs (.addTable (tableName interface) ::
      withinTable interface (ensureExistsRuleset interface)) = (.ok (),
        update rs (tableName interface) (some ((Contents.mk (start.getD .none_).v4
          (start.getD .none_).v6 ((start.getD .none_).copies + 1)).table interface))) := by
    apply runNft_add
    cases start with
    | none =>
      rw [show rs (tableName interface) = none from here]
      exact ensure_absent
    | some g =>
      rw [show rs (tableName interface) = some (g.table interface) from here]
      exact ensure_present
  have script : runOps (elements "blocked_v4" (splitByFamily ips).1 ++
      elements "blocked_v6" (splitByFamily ips).2) ((Contents.mk (start.getD .none_).v4
        (start.getD .none_).v6 ((start.getD .none_).copies + 1)).table interface) =
      some (((start.getD .none_).step (.block ips)).table interface) := by
    rw [runOps_append, v4_run, Option.bind_some, v6_run]
    rfl
  rw [Call.apply, Gate.block, ensured]
  dsimp only
  split
  · rename_i empty
    rw [List.isEmpty_iff] at empty
    rw [empty] at script
    rw [Option.some.inj script]
  · rw [runNft_within (update_self ..) script, update_idem]

theorem clear_eq : clear rs interface = update rs (tableName interface) none := by
  rw [clear, runNft, List.foldlM_cons, Statement.apply]
  cases present : rs (tableName interface) with
  | none =>
    have same : update rs (tableName interface) none = rs := by rw [← present, update_eq_self]
    rw [same]
    rfl
  | some t => rfl

theorem applyAll_apply {blocked : List AllowedIp} : (Call.applyAll blocked).apply interface rs =
    update rs (tableName interface) (some ((g.step (.applyAll blocked)).table interface)) := by
  have done : runOps (dataRuleset interface blocked)
      ((update rs (tableName interface) none (tableName interface)).getD .empty) =
        some ((g.step (.applyAll blocked)).table interface) := by
    rw [update_self]
    exact data_absent
  rw [Call.apply, Gate.applyAll, clear_eq, runNft_add done, update_idem]

/-- The element is gone, whether the script failed or not. -/
theorem deleteElement_eq {name spec : String} {old : List AllowedIp} {ip : AllowedIp}
    (here : rs (tableName interface) = some t) (present : t.sets name = some ⟨spec, old⟩) :
    deleteElement interface name rs ip = update rs (tableName interface)
      (some { t with sets := update t.sets name (some ⟨spec, old.filter (· ≠ ip)⟩) }) := by
  unfold deleteElement
  by_cases member : ip ∈ old
  · have done : runOps [.deleteElement name ip] t = some
        { t with sets := update t.sets name (some ⟨spec, old.filter (· ≠ ip)⟩) } := by
      rw [runOps_cons, Op.apply, present]
      simp only [Option.bind_some, if_pos member]
      rfl
    rw [runNft_within here done]
  · have failed : runOps [.deleteElement name ip] t = none := by
      rw [runOps_cons, Op.apply, present]
      simp only [Option.bind_some, if_neg member]
      rfl
    have same : old.filter (· ≠ ip) = old := by
      rw [List.filter_eq_self]
      intro ip' member'
      exact decide_eq_true fun (same : ip' = ip) => member (same ▸ member')
    rw [same, ← present, update_eq_self, ← here, update_eq_self, runNft, within_run here, failed]
    rfl

theorem filter_filter_ne {l ips : List AllowedIp} {ip : AllowedIp} :
    (l.filter (· ≠ ip)).filter (· ∉ ips) = l.filter (· ∉ ip :: ips) := by
  rw [List.filter_filter]
  congr 1
  funext ip'
  simp [Bool.and_comm]

theorem delete_v4 {ips : List AllowedIp} (here : rs (tableName interface) = some (g.table interface)) :
    ips.foldl (deleteElement interface "blocked_v4") rs = update rs (tableName interface)
      (some ({ g with v4 := g.v4.filter (· ∉ ips) }.table interface)) := by
  induction ips generalizing rs g with
  | nil =>
    have same : g.v4.filter (· ∉ ([] : List AllowedIp)) = g.v4 := by simp
    rw [same, ← here, update_eq_self]
    rfl
  | cons ip ips ih =>
    rw [List.foldl_cons, deleteElement_eq here rfl, ← table_v4,
      ih (g := { g with v4 := g.v4.filter (· ≠ ip) }) (update_self ..), update_idem]
    simp only [filter_filter_ne]

theorem delete_v6 {ips : List AllowedIp} (here : rs (tableName interface) = some (g.table interface)) :
    ips.foldl (deleteElement interface "blocked_v6") rs = update rs (tableName interface)
      (some ({ g with v6 := g.v6.filter (· ∉ ips) }.table interface)) := by
  induction ips generalizing rs g with
  | nil =>
    have same : g.v6.filter (· ∉ ([] : List AllowedIp)) = g.v6 := by simp
    rw [same, ← here, update_eq_self]
    rfl
  | cons ip ips ih =>
    rw [List.foldl_cons, deleteElement_eq here rfl, ← table_v6,
      ih (g := { g with v6 := g.v6.filter (· ≠ ip) }) (update_self ..), update_idem]
    simp only [filter_filter_ne]

theorem release_apply {ips : List AllowedIp}
    (here : rs (tableName interface) = some (g.table interface)) :
    (Call.release ips).apply interface rs =
      update rs (tableName interface) (some ((g.step (.release ips)).table interface)) := by
  rw [Call.apply, Gate.release]
  dsimp only
  rw [delete_v4 here, delete_v6 (g := { g with v4 := g.v4.filter (· ∉ (splitByFamily ips).1) })
    (update_self ..), update_idem]
  rfl

/-- Each call does to the table of its interface what its step does to the contents, and nothing to
the others. -/
theorem apply_step {call : Call} (here : rs (tableName interface) = some (g.table interface)) :
    call.apply interface rs =
      update rs (tableName interface) (some ((g.step call).table interface)) := by
  cases call with
  | block ips => exact @block_apply _ _ _ (some g) here
  | release ips => exact release_apply here
  | applyAll blocked => exact applyAll_apply

end Simulation

def Call.Blocks (ip : AllowedIp) : Call → Prop
  | block ips => ip ∈ ips
  | release _ => False
  | applyAll blocked => ip ∈ blocked

def Call.Opens (ip : AllowedIp) : Call → Prop
  | block _ => False
  | release ips => ip ∈ ips
  | applyAll blocked => ip ∉ blocked

/-- The address was blocked, or seeded, and not opened since. -/
def Blocked (calls : List Call) (ip : AllowedIp) : Prop :=
  ∃ before call after, calls = before ++ call :: after ∧ call.Blocks ip ∧
    ∀ later ∈ after, ¬ later.Opens ip

def IsV4 (ip : AllowedIp) : Prop := ∃ bits, ip.address = .v4 bits

section Addresses

variable {ip : AllowedIp} {ips old new : List AllowedIp} {calls : List Call} {call : Call} {g : Contents}

theorem mem_split_v4 : ip ∈ (splitByFamily ips).1 ↔ ip ∈ ips ∧ IsV4 ip := by
  cases same : ip.address <;> simp [splitByFamily, IsV4, same]

theorem mem_split_v6 : ip ∈ (splitByFamily ips).2 ↔ ip ∈ ips ∧ ¬ IsV4 ip := by
  cases same : ip.address <;> simp [splitByFamily, IsV4, same]

theorem mem_insertAll : ip ∈ insertAll old new ↔ ip ∈ old ∨ ip ∈ new := by
  simp only [insertAll, List.mem_append, List.mem_filter, List.mem_dedup, decide_eq_true_eq]
  tauto

theorem blocked_nil : ¬ Blocked [] ip := by
  rintro ⟨before, call, after, same, -⟩
  simp at same

theorem blocked_concat :
    Blocked (calls ++ [call]) ip ↔ call.Blocks ip ∨ Blocked calls ip ∧ ¬ call.Opens ip := by
  constructor
  · rintro ⟨before, c, after, same, blocks, kept⟩
    rcases List.eq_nil_or_concat' after with rfl | ⟨after, last, rfl⟩
    · obtain ⟨rfl, tail⟩ := List.append_inj' same rfl
      cases tail
      exact .inl blocks
    · rw [← List.cons_append, ← List.append_assoc] at same
      obtain ⟨rfl, tail⟩ := List.append_inj' same rfl
      cases tail
      rw [List.forall_mem_append, List.forall_mem_singleton] at kept
      exact .inr ⟨⟨before, c, after, rfl, blocks, kept.1⟩, kept.2⟩
  · rintro (blocks | ⟨⟨before, c, after, rfl, blocks, kept⟩, closed⟩)
    · exact ⟨calls, call, [], rfl, blocks, by simp⟩
    · refine ⟨before, c, after ++ [call], by simp, blocks, ?_⟩
      rw [List.forall_mem_append, List.forall_mem_singleton]
      exact ⟨kept, closed⟩

/-- The sets hold what the calls left blocked, each its own family. -/
structure Holds (g : Contents) (calls : List Call) : Prop where
  v4 : ∀ ip, ip ∈ g.v4 ↔ IsV4 ip ∧ Blocked calls ip
  v6 : ∀ ip, ip ∈ g.v6 ↔ ¬ IsV4 ip ∧ Blocked calls ip

theorem none_holds : Holds .none_ [] :=
  ⟨fun ip => by simp [Contents.none_, blocked_nil], fun ip => by simp [Contents.none_, blocked_nil]⟩

theorem step_holds (holds : Holds g calls) : Holds (g.step call) (calls ++ [call]) := by
  constructor
  · intro ip
    rw [blocked_concat]
    have before := holds.v4 ip
    cases call with
    | block ips =>
      simp only [Contents.step, mem_insertAll, mem_split_v4, Call.Blocks, Call.Opens, before]
      tauto
    | release ips =>
      simp only [Contents.step, List.mem_filter, decide_eq_true_eq, mem_split_v4, Call.Blocks,
        Call.Opens, before]
      tauto
    | applyAll blocked =>
      simp only [Contents.step, mem_insertAll, mem_split_v4, Call.Blocks, Call.Opens,
        List.not_mem_nil]
      tauto
  · intro ip
    rw [blocked_concat]
    have before := holds.v6 ip
    cases call with
    | block ips =>
      simp only [Contents.step, mem_insertAll, mem_split_v6, Call.Blocks, Call.Opens, before]
      tauto
    | release ips =>
      simp only [Contents.step, List.mem_filter, decide_eq_true_eq, mem_split_v6, Call.Blocks,
        Call.Opens, before]
      tauto
    | applyAll blocked =>
      simp only [Contents.step, mem_insertAll, mem_split_v6, Call.Blocks, Call.Opens,
        List.not_mem_nil]
      tauto

theorem steps_holds {past : List Call} (holds : Holds g past) :
    Holds (calls.foldl Contents.step g) (past ++ calls) := by
  induction calls generalizing g past with
  | nil =>
    rw [List.append_nil]
    exact holds
  | cons call calls ih =>
    rw [List.foldl_cons, ← List.singleton_append, ← List.append_assoc]
    exact ih (step_holds holds)

end Addresses

/-- Every call of `block` is followed by one of `apply_all`. -/
def Settled (calls : List Call) : Prop :=
  ∀ before ips after, calls = before ++ .block ips :: after → ∃ blocked, .applyAll blocked ∈ after

section Copies

variable {g : Contents} {calls : List Call} {ips : List AllowedIp}

theorem settled_nil : Settled [] := by
  intro before ips after same
  simp at same

theorem settled_block : ¬ Settled (calls ++ [.block ips]) := by
  intro settled
  obtain ⟨blocked, member⟩ := settled calls ips [] rfl
  cases member

theorem settled_applyAll {blocked : List AllowedIp} : Settled (calls ++ [.applyAll blocked]) := by
  intro before ips after same
  rcases List.eq_nil_or_concat' after with rfl | ⟨after, last, rfl⟩
  · cases (List.append_inj' same rfl).2
  · rw [← List.cons_append, ← List.append_assoc] at same
    cases (List.append_inj' same rfl).2
    exact ⟨blocked, List.mem_append_right _ (List.mem_singleton_self _)⟩

theorem settled_release : Settled (calls ++ [.release ips]) ↔ Settled calls := by
  constructor
  · rintro settled before ips' after rfl
    obtain ⟨blocked, member⟩ := settled before ips' (after ++ [.release ips]) (by simp)
    rcases List.mem_append.mp member with earlier | last
    · exact ⟨blocked, earlier⟩
    · cases List.mem_singleton.mp last
  · intro settled before ips' after same
    rcases List.eq_nil_or_concat' after with rfl | ⟨after, last, rfl⟩
    · cases (List.append_inj' same rfl).2
    · rw [← List.cons_append, ← List.append_assoc] at same
      obtain ⟨blocked, member⟩ := settled before ips' after (List.append_inj' same rfl).1
      exact ⟨blocked, List.mem_append_left _ member⟩

theorem copies_pos (some_ : 0 < g.copies) : 0 < (calls.foldl Contents.step g).copies := by
  induction calls generalizing g with
  | nil => exact some_
  | cons call calls ih =>
    apply ih
    cases call with
    | block ips => exact Nat.succ_pos _
    | release ips => exact some_
    | applyAll blocked => exact Nat.one_pos

/-- Each call of `block` leaves another copy of the rules. -/
theorem blocks_accumulate (n : Nat) :
    ((List.replicate n (.block ips)).foldl Contents.step g).copies = g.copies + n := by
  induction n generalizing g with
  | zero => rfl
  | succ n ih =>
    rw [List.replicate_succ, List.foldl_cons, ih, Contents.step]
    dsimp only
    omega

theorem copies_iff (one : g.copies = 1) :
    (calls.foldl Contents.step g).copies = 1 ↔ Settled calls := by
  induction calls using List.reverseRecOn with
  | nil => simp [one, settled_nil]
  | append_singleton calls call ih =>
    rw [List.foldl_append]
    have some_ : 0 < (calls.foldl Contents.step g).copies := copies_pos (one.symm ▸ Nat.one_pos)
    cases call with
    | block ips =>
      simp only [List.foldl_cons, List.foldl_nil, Contents.step, settled_block, iff_false]
      omega
    | release ips => exact ih.trans settled_release.symm
    | applyAll blocked => simp [Contents.step, settled_applyAll]

end Copies

section Runs

variable {interface : String} {rs : Ruleset} {g : Contents} {first : Call}

/-- The ruleset after these calls. -/
def run (interface : String) (rs : Ruleset) (calls : List Call) : Ruleset :=
  calls.foldl (Call.apply interface) rs

theorem run_eq {calls : List Call} (here : rs (tableName interface) = some (g.table interface)) :
    run interface rs calls = update rs (tableName interface)
      (some ((calls.foldl Contents.step g).table interface)) := by
  induction calls generalizing rs g with
  | nil =>
    rw [List.foldl_nil, ← here, update_eq_self]
    rfl
  | cons call calls ih =>
    have next := @ih (call.apply interface rs) (g.step call)
      (by rw [apply_step here, update_self])
    rw [apply_step here, update_idem] at next
    rw [run, List.foldl_cons, apply_step here]
    exact next

/-- `block` and `apply_all` install the gate. -/
def Call.Installs : Call → Prop
  | release _ => False
  | _ => True

theorem installs_apply (absent : rs (tableName interface) = none) (installs : first.Installs) :
    first.apply interface rs =
      update rs (tableName interface) (some ((Contents.none_.step first).table interface)) ∧
      (Contents.none_.step first).copies = 1 := by
  cases first with
  | block ips => exact ⟨@block_apply _ _ _ none absent, rfl⟩
  | release ips => exact installs.elim
  | applyAll blocked => exact ⟨applyAll_apply, rfl⟩

/-- The chains have one copy of the rules or they are not those that were installed. -/
theorem chains_eq_iff {g g' : Contents} (one : g.copies = 1) :
    (g'.table interface).chains = (g.table interface).chains ↔ g'.copies = 1 := by
  constructor
  · intro same
    have input := congrFun same "input"
    have rules := congrArg (fun c => c.map fun c : NftChain => c.rules.length) input
    simp [Contents.table, chains, rulesOf, one] at rules
    exact rules
  · intro one'
    simp only [Contents.table, one, one']

/-- Between two rulesets and the calls that led to the second: the chains are as they were, and the
sets are what the calls say. -/
def Exact (interface : String) (installed final : Ruleset) (calls : List Call) : Prop :=
  ∃ t t', installed (tableName interface) = some t ∧ final (tableName interface) = some t' ∧
    t'.chains = t.chains ∧
    (∃ v4, t'.sets "blocked_v4" = some ⟨setV4, v4⟩ ∧ ∀ ip, ip ∈ v4 ↔ IsV4 ip ∧ Blocked calls ip) ∧
    ∃ v6, t'.sets "blocked_v6" = some ⟨setV6, v6⟩ ∧ ∀ ip, ip ∈ v6 ↔ ¬ IsV4 ip ∧ Blocked calls ip

/-- The sets are exact after every run, so only copies of the rules can be wrong. -/
theorem exact_iff_copies (absent : rs (tableName interface) = none) (installs : first.Installs)
    (calls : List Call) :
    Exact interface (first.apply interface rs) (run interface rs (first :: calls))
      (first :: calls) ↔ (calls.foldl Contents.step (Contents.none_.step first)).copies = 1 := by
  obtain ⟨installed, one⟩ := installs_apply absent installs
  have here : first.apply interface rs (tableName interface) =
      some ((Contents.none_.step first).table interface) := by rw [installed, update_self]
  have final := congrFun (@run_eq _ _ _ calls here) (tableName interface)
  rw [update_self] at final
  have holds := @steps_holds calls _ _ (@step_holds [] first _ none_holds)
  rw [List.nil_append, List.singleton_append] at holds
  rw [← @chains_eq_iff interface _ _ one]
  constructor
  · rintro ⟨t, t', same, same', chains, -⟩
    cases here.symm.trans same
    cases final.symm.trans same'
    exact chains
  · intro chains
    exact ⟨_, _, here, final, chains, ⟨_, rfl, holds.v4⟩, _, rfl, holds.v6⟩

/-- The blocked sets are always exact; the chains are those of the first call exactly when no `block`
came behind it without an `apply_all` after it. -/
theorem run_exact_iff (absent : rs (tableName interface) = none) (installs : first.Installs)
    (calls : List Call) :
    Exact interface (first.apply interface rs) (run interface rs (first :: calls))
      (first :: calls) ↔ Settled calls := by
  obtain ⟨-, one⟩ := installs_apply absent installs
  rw [exact_iff_copies absent installs, copies_iff one]

/-- The tables of other interfaces are not touched. -/
theorem run_other (absent : rs (tableName interface) = none) (installs : first.Installs)
    {calls : List Call} {table : String} (other : table ≠ tableName interface) :
    run interface rs (first :: calls) table = rs table := by
  obtain ⟨installed, -⟩ := installs_apply absent installs
  have here : first.apply interface rs (tableName interface) =
      some ((Contents.none_.step first).table interface) := by rw [installed, update_self]
  have final := congrFun (@run_eq _ _ _ calls here) table
  rw [update_of_ne other, installed, update_of_ne other] at final
  rw [← final, ← installed]
  rfl

/-- A client that seeds its gate, gates an address and starts again. -/
theorem seeded_exact : ∃ rs : Ruleset, rs (tableName "wg0") = none ∧
    Exact "wg0" ((Call.applyAll [⟨.v4 1, 32⟩]).apply "wg0" rs)
      (run "wg0" rs [.applyAll [⟨.v4 1, 32⟩], .block [⟨.v4 2, 32⟩], .applyAll [⟨.v4 2, 32⟩]])
      [.applyAll [⟨.v4 1, 32⟩], .block [⟨.v4 2, 32⟩], .applyAll [⟨.v4 2, 32⟩]] :=
  ⟨fun _ => none, rfl, (@run_exact_iff "wg0" (fun _ => none) (.applyAll [⟨.v4 1, 32⟩]) rfl trivial
    [.block [⟨.v4 2, 32⟩], .applyAll [⟨.v4 2, 32⟩]]).mpr
      (@settled_applyAll [.block [⟨.v4 2, 32⟩]] _)⟩

/-- Two calls of `block` leave every rule twice. -/
theorem not_run_exact : ¬ ∀ (interface : String) (rs : Ruleset) (first : Call) (calls : List Call),
    rs (tableName interface) = none → first.Installs →
      Exact interface (first.apply interface rs) (run interface rs (first :: calls))
        (first :: calls) := by
  intro always
  have exact_ := always "wg0" (fun _ => none) (.block []) [.block []] rfl trivial
  rw [@exact_iff_copies "wg0" _ (.block []) rfl trivial] at exact_
  exact absurd exact_ (by decide)

end Runs

/-- The gate of a tunnel is that of its table. -/
def Shows (t : Tunnel) (g : Contents) : Prop := ∀ ip, ip ∈ t.blocked ↔ ip ∈ g.v4 ∨ ip ∈ g.v6

section Tunnels

variable {t : Tunnel} {g : Contents} {ips : List AllowedIp}

theorem shows_block (shows_ : Shows t g) : Shows (t.block ips) (g.step (.block ips)) := by
  intro ip
  simp only [Tunnel.block, List.mem_append, shows_ ip, Contents.step, mem_insertAll, mem_split_v4,
    mem_split_v6]
  tauto

theorem shows_release {calls : List Call} (holds : Holds g calls) (shows_ : Shows t g) :
    Shows (t.release ips) (g.step (.release ips)) := by
  intro ip
  simp only [Tunnel.release, List.mem_filter, decide_eq_true_eq, shows_ ip, Contents.step,
    mem_split_v4, mem_split_v6, holds.v4 ip, holds.v6 ip]
  tauto

end Tunnels

end Innernet.Gate
