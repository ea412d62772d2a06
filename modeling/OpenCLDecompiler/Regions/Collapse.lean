import Mathlib.Data.Finset.Dedup
import Mathlib.Data.Finset.Lattice.Lemmas
import OpenCLDecompiler.Regions.Open

/-!
# Merging a program

The depth-first walk merges the regions of code in place: behind the walk one
region stands for the code, between the region in front of it and its exit.
-/

namespace OpenCLDecompiler.Regions

/-! ## The walk -/

/-- The walk goes on to a region if it has not been there. -/
def Enters (st : DfsState) : Option RegionId → DfsState → Prop
  | none, final => final = st
  | some region, final =>
      region ∈ st.visited ∧ final = st ∨
        region ∉ st.visited ∧ ∃ result, Searches st region final result

section Walk

variable {st middle final : DfsState} {graph : Graph} {visited : Finset RegionId}
  {region child : RegionId} {index : Nat}

theorem Visits.enters {result : RegionId} (here : (st.graph.children region)[index]? = some child)
    (enters : Enters st (some child) middle)
    (rest : ∀ inner, ∃ last, Visits middle region (index + 1) inner final last) :
    ∃ last, Visits st region index result final last := by
  rcases enters with ⟨seen, rfl⟩ | ⟨fresh, inner, search⟩
  · obtain ⟨last, visits⟩ := rest result
    exact ⟨last, visits.skip here seen⟩
  · obtain ⟨last, visits⟩ := rest inner
    exact ⟨last, visits.enter here fresh search⟩

/-- A region with one child at most is left as it is. -/
theorem processRegion_few (few : (st.graph.children region).length ≤ 1) (result : RegionId) :
    processRegion st region result = some (st, result) := by
  have noIf : checkIf st.graph region = false := by
    unfold checkIf
    split
    · rename_i two
      simp [two] at few
    · rfl
  have noIfElse : checkIfElse st.graph region = false := by
    unfold checkIfElse
    split
    · rename_i two
      simp [two] at few
    · rfl
  simp [processRegion, noIf, noIfElse]

/-- The walk over a region with one child at most; without one it returns the region. -/
theorem Searches.few {next : Option RegionId} (children : graph.children region = next.toList)
    (enters : Enters ⟨graph, insert region visited⟩ next final)
    (few : (final.graph.children region).length ≤ 1) :
    ∃ result, (next = none → result = region) ∧ Searches ⟨graph, visited⟩ region final result := by
  cases next with
  | none =>
      cases enters
      have visits := @Visits.stop ⟨graph, insert region visited⟩ region region 0
        (by rw [children]; rfl)
      exact ⟨region, fun _ => rfl, Searches.intro visits (processRegion_few few region)⟩
  | some child =>
      have ends : ∀ inner, ∃ last, Visits final region 1 inner final last :=
        fun inner => ⟨inner, Visits.stop (List.getElem?_eq_none few)⟩
      obtain ⟨last, visits⟩ := @Visits.enters ⟨graph, insert region visited⟩ final final region
        child 0 region (by rw [children]; rfl) enters ends
      exact ⟨last, nofun, Searches.intro visits (processRegion_few few last)⟩

/-- The walk over the linear region in front of a branch returns what the branch does. -/
theorem Searches.lead {result : RegionId} (children : graph.children region = [child])
    (fresh : child ∉ insert region visited)
    (search : Searches ⟨graph, insert region visited⟩ child final result)
    (few : (final.graph.children region).length ≤ 1) :
    Searches ⟨graph, visited⟩ region final result := by
  have visits : Visits ⟨graph, insert region visited⟩ region 0 region final result :=
    Visits.enter (by rw [children]; rfl) fresh search (Visits.stop (List.getElem?_eq_none few))
  exact Searches.intro visits (processRegion_few few result)

/-- The walk over a branch: both ways, and then the branch itself. -/
theorem Searches.branch {middle final after : Graph} {seen all : Finset RegionId}
    {body other merged inner result : RegionId}
    (children : graph.children region = [body, other])
    (fresh : body ∉ insert region visited)
    (search : Searches ⟨graph, insert region visited⟩ body ⟨middle, seen⟩ inner)
    (children1 : middle.children region = [merged, other])
    (enters : Enters ⟨middle, seen⟩ (some other) ⟨final, all⟩)
    (children2 : (final.children region).length = 2)
    (process : ∀ last, processRegion ⟨final, all⟩ region last = some (⟨after, all⟩, result)) :
    Searches ⟨graph, visited⟩ region ⟨after, all⟩ result := by
  have ends : ∀ inner, ∃ last, Visits ⟨final, all⟩ region 2 inner ⟨final, all⟩ last :=
    fun inner => ⟨inner, Visits.stop (List.getElem?_eq_none (Nat.le_of_eq children2))⟩
  obtain ⟨last, visits⟩ := @Visits.enters ⟨middle, seen⟩ ⟨final, all⟩ ⟨final, all⟩ region other 1
    inner (by rw [children1]; rfl) enters ends
  exact Searches.intro (Visits.enter (by rw [children]; rfl) fresh search visits) (process last)

end Walk

/-! ## Code that is merged -/

namespace Code

/--
Every linear region prints a statement, and a statement that ends at the join of
the statement around it (`inner`) has a linear region in front of its branch.
-/
def Mergeable (cfg : Cfg) : Code → Bool → Prop
  | .done, _ => True
  | .block linear, _ => linear.statements cfg ≠ []
  | .own branch body other _ rest, inner =>
      (∀ lead, branch.lead = some lead → lead.statements cfg ≠ []) ∧
      (branch.lead = none → rest.first = none → inner = false) ∧
      body.Mergeable cfg true ∧ other.Mergeable cfg true ∧ rest.Mergeable cfg inner
  | .shared branch body other, _ =>
      (∀ lead, branch.lead = some lead → lead.statements cfg ≠ []) ∧
      branch.lead.isSome = true ∧
      body.Mergeable cfg true ∧ other.Mergeable cfg true

end Code

/--
The code stands untouched between `pred` and `exit`: so far the walk has changed
only regions around it.  `others` are the other parents of the exit.
-/
structure Sits (cfg : Cfg) (graph now : Graph) (code : Code) (pred exit : Option RegionId)
    (others : List RegionId) : Prop where
  placed : code.Placed cfg graph pred exit
  mergeable : code.Mergeable cfg exit.isSome
  nodes : code.nodes.Nodup
  distinct : (code.regions ++ (exit.toList ++ pred.toList)).Nodup
  inUse : ∀ region ∈ code.regions ++ (exit.toList ++ pred.toList), region < graph.next
  exitType : ∀ join, exit = some join → graph.type join = .basic
  predType : ∀ above, pred = some above → graph.type above = .basic
  grows : graph.Grows now
  same : ∀ region ∈ code.regions, now.children region = graph.children region ∧
    now.parent region = graph.parent region
  predChild : ∀ above first, pred = some above → code.first = some first →
    first ∈ now.children above
  predOld : ∀ above, pred = some above → ∀ child ∈ now.children above, child < now.next
  exitParent : ∀ join, exit = some join → ∃ above, pred = some above ∧
    (now.parent join).Perm (code.enders above ++ others)
  shared : exit.isSome = true → others ≠ []
  start : pred = none → ∀ first, code.first = some first → graph.type first ≠ .basic

/-- The regions that are inside the code, also those that were made for it. -/
def Inside (regions : List RegionId) (now after : Graph) (region : RegionId) : Prop :=
  (region ∈ regions ∨ now.next ≤ region) ∧ region < after.next

/-- The list with the merged region in the place of the first region of the code. -/
def merge : Option RegionId → Option RegionId → List RegionId → List RegionId
  | some first, some merged, list => list.replace first merged
  | _, _, list => list

/--
The code is merged into `region`, or `region` is `none` and there is nothing to
merge; the rest of the graph is as before.
-/
structure Collapsed (cfg : Cfg) (now after : Graph) (code : Code) (pred exit : Option RegionId)
    (others : List RegionId) (region : Option RegionId) : Prop where
  grows : now.Grows after
  isSome : region.isSome = code.first.isSome
  inside : ∀ merged, region = some merged → Inside code.regions now after merged
  type : ∀ merged, region = some merged → after.type merged ≠ .basic
  ownChildren : ∀ merged, region = some merged → after.children merged = exit.toList
  ownParent : ∀ merged, region = some merged → after.parent merged = pred.toList
  children : ∀ other, other < now.next → other ∉ code.regions → pred ≠ some other →
    after.children other = now.children other
  predChildren : ∀ above, pred = some above →
    after.children above = merge code.first region (now.children above)
  exitParent : ∀ join, exit = some join → ∃ above, pred = some above ∧
    (after.parent join).Perm (region.getD above :: others)
  parent : ∀ other, other < now.next → other ∉ code.regions → exit ≠ some other →
    after.parent other = now.parent other
  shows : ∀ merged, region = some merged → ∀ later, after.Grows later →
    (∀ other, Inside code.regions now after other → other ≠ merged →
      later.children other = after.children other) →
    Shows cfg later merged (code.printed cfg)

/--
The walk over the code, where `graph` is the graph before the walk over what is
behind the exit and `now` the one after it.
-/
def Walks (now after : Graph) (code : Code) (pred exit region : Option RegionId) : Prop :=
  ∀ (graph : Graph) (visited seen : Finset RegionId),
    (∀ other ∈ code.regions, graph.children other = now.children other) →
    (∀ other ∈ code.regions, other ∉ visited ∧ other ∉ seen) →
    (∀ join, exit = some join → join ∈ seen) →
    (∀ extra : Finset RegionId, (∀ other ∈ extra, other ∈ code.regions) →
      Enters ⟨graph, visited ∪ extra⟩ exit ⟨now, seen ∪ extra⟩) →
    match code.first with
    | none => after = now
    | some first => ∃ result, (pred = none → region = some result) ∧
        Searches ⟨graph, visited⟩ first ⟨after, seen ∪ code.regions.toFinset⟩ result

section Collapse

variable {cfg : Cfg} {graph now after : Graph} {code : Code} {pred exit : Option RegionId}
  {others : List RegionId}

theorem Code.first_mem {first : RegionId} (starts : code.first = some first) :
    first ∈ code.regions := by
  cases code with
  | done => cases starts
  | block linear => simpa [Code.first, Code.regions, eq_comm] using starts
  | own branch body other join rest =>
      cases starts
      cases lead : branch.lead <;> simp [Code.regions, Branch.entry, Branch.leadRegions, lead]
  | shared branch body other =>
      cases starts
      cases lead : branch.lead <;> simp [Code.regions, Branch.entry, Branch.leadRegions, lead]

theorem Code.regions_eq_nil (empty : code.first = none) : code.regions = [] := by
  cases code <;> first | rfl | cases empty

/-- The walk enters the code where it starts, or its exit if there is no code. -/
theorem Walks.enters {region : Option RegionId} (walks : Walks now after code pred exit region)
    {before : Graph} {visited seen : Finset RegionId}
    (same : ∀ other ∈ code.regions, before.children other = now.children other)
    (fresh : ∀ other ∈ code.regions, other ∉ visited ∧ other ∉ seen)
    (exitSeen : ∀ join, exit = some join → join ∈ seen)
    (behind : ∀ extra : Finset RegionId, (∀ other ∈ extra, other ∈ code.regions) →
      Enters ⟨before, visited ∪ extra⟩ exit ⟨now, seen ∪ extra⟩) :
    Enters ⟨before, visited⟩ (code.entry exit) ⟨after, seen ∪ code.regions.toFinset⟩ := by
  have walk := walks before visited seen same fresh exitSeen behind
  unfold Code.entry
  cases starts : code.first with
  | none =>
      rw [starts] at walk
      cases walk
      simpa [Code.regions_eq_nil starts] using behind ∅ (by simp)
  | some first =>
      rw [starts] at walk
      obtain ⟨result, -, search⟩ := walk
      exact .inr ⟨(fresh first (Code.first_mem starts)).1, result, search⟩

theorem Sits.collapse_done (sits : Sits cfg graph now .done pred exit others) :
    ∃ after region, Collapsed cfg now after .done pred exit others region ∧
      Walks now after .done pred exit region := by
  refine ⟨now, none, ?_, fun _ _ _ _ _ _ _ => rfl⟩
  constructor
  case grows => exact Graph.Grows.refl now
  case isSome => rfl
  case predChildren => exact fun _ _ => rfl
  case exitParent => exact sits.exitParent
  case children => exact fun _ _ _ _ => rfl
  case parent => exact fun _ _ _ _ => rfl
  all_goals exact nofun

theorem Sits.collapse_block {block : Block}
    (sits : Sits cfg graph now (.block block) pred exit others) :
    ∃ after region, Collapsed cfg now after (.block block) pred exit others region ∧
      Walks now after (.block block) pred exit region := by
  have placed : block.Placed cfg graph pred exit := sits.placed
  obtain ⟨children, parent⟩ := sits.same block.region (by simp [Code.regions])
  have inUse : block.region < graph.next := sits.inUse _ (by simp [Code.regions])
  refine ⟨now, some block.region, ?_, ?_⟩
  · constructor
    case grows => exact Graph.Grows.refl now
    case isSome => rfl
    case inside =>
      rintro merged ⟨⟩
      exact ⟨.inl (by simp [Code.regions]), Nat.lt_of_lt_of_le inUse sits.grows.next⟩
    case type =>
      rintro merged ⟨⟩
      rw [sits.grows.type inUse, placed.type]
      decide
    case ownChildren =>
      rintro merged ⟨⟩
      rw [children, placed.children]
    case ownParent =>
      rintro merged ⟨⟩
      rw [parent, placed.parent]
    case children => exact fun _ _ _ _ => rfl
    case predChildren => exact fun above _ => (replace_same _ _).symm
    case exitParent => exact sits.exitParent
    case parent => exact fun _ _ _ _ => rfl
    case shows =>
      rintro merged ⟨⟩ later grows -
      exact Block.shows placed sits.nodes sits.mergeable
        ((sits.grows.trans grows).label block.region inUse)
  · rintro before visited seen same fresh exitSeen behind
    have enters : Enters ⟨before, insert block.region visited⟩ exit
        ⟨now, insert block.region seen⟩ := by
      simpa using behind {block.region} (by simp [Code.regions])
    have childrenBefore : before.children block.region = exit.toList := by
      rw [same _ (by simp [Code.regions]), children, placed.children]
    obtain ⟨result, last, search⟩ := Searches.few childrenBefore enters (by
      rw [children, placed.children]
      cases exit <;> simp)
    refine ⟨result, ?_, by simpa [Code.regions] using search⟩
    rintro noPred
    cases exit with
    | none => rw [last rfl]
    | some join =>
        obtain ⟨above, isPred, -⟩ := sits.exitParent join rfl
        cases noPred.symm.trans isPred

theorem Sits.frame {later : Graph} {news : List RegionId}
    (sits : Sits cfg graph now code pred exit others) (grows : now.Grows later)
    (children : ∀ region ∈ code.regions, later.children region = now.children region)
    (parent : ∀ region ∈ code.regions, later.parent region = now.parent region)
    (predChild : ∀ above first, pred = some above → code.first = some first →
      first ∈ later.children above)
    (predOld : ∀ above, pred = some above → ∀ child ∈ later.children above, child < later.next)
    (exitParent : ∀ join, exit = some join → ∃ above, pred = some above ∧
      (later.parent join).Perm (code.enders above ++ news))
    (shared : exit.isSome = true → news ≠ []) :
    Sits cfg graph later code pred exit news := by
  constructor
  case grows => exact sits.grows.trans grows
  case same =>
    rintro region inside
    rw [children region inside, parent region inside]
    exact sits.same region inside
  case predChild => exact predChild
  case predOld => exact predOld
  case exitParent => exact exitParent
  case shared => exact shared
  case placed => exact sits.placed
  case mergeable => exact sits.mergeable
  case nodes => exact sits.nodes
  case distinct => exact sits.distinct
  case inUse => exact sits.inUse
  case exitType => exact sits.exitType
  case predType => exact sits.predType
  case start => exact sits.start

/-- The code can be merged wherever it sits. -/
def Collapses (cfg : Cfg) (graph : Graph) (code : Code) : Prop :=
  ∀ {now : Graph} {pred exit : Option RegionId} {others : List RegionId},
    Sits cfg graph now code pred exit others →
    ∃ after region, Collapsed cfg now after code pred exit others region ∧
      Walks now after code pred exit region

end Collapse

/-! ## The two ways of a branch -/

/-- Both ways of a branch sit between its header and the join. -/
structure Ways (cfg : Cfg) (graph now : Graph) (header join : RegionId) (body other : Code)
    (others : List RegionId) : Prop where
  bodySits : Sits cfg graph now body (some header) (some join) (other.enders header ++ others)
  otherSits : Sits cfg graph now other (some header) (some join) (body.enders header ++ others)
  children : now.children header = Code.targets body other join
  bodyFirst : body.first.isSome = true
  distinct : (body.regions ++ other.regions).Nodup

/-- Both ways are merged. -/
structure Merged (cfg : Cfg) (now after : Graph) (header join : RegionId) (body other : Code)
    (others : List RegionId) (bodyR : RegionId) (otherR : Option RegionId) : Prop where
  grows : now.Grows after
  isSome : otherR.isSome = other.first.isSome
  bodyInside : Inside (body.regions ++ other.regions) now after bodyR
  otherInside : ∀ region, otherR = some region →
    Inside (body.regions ++ other.regions) now after region
  distinct : (header :: bodyR :: join :: otherR.toList).Nodup
  headerChildren : after.children header = [bodyR, otherR.getD join]
  bodyChildren : after.children bodyR = [join]
  bodyParent : after.parent bodyR = [header]
  otherChildren : ∀ region, otherR = some region → after.children region = [join]
  joinParent : (after.parent join).Perm (bodyR :: otherR.getD header :: others)
  children : ∀ region, region < now.next → region ∉ body.regions ++ other.regions →
    region ≠ header → after.children region = now.children region
  parent : ∀ region, region < now.next → region ∉ body.regions ++ other.regions →
    region ≠ join → after.parent region = now.parent region
  shows : ∀ later, after.Grows later →
    (∀ region, Inside (body.regions ++ other.regions) now after region → region ≠ bodyR →
      otherR ≠ some region → later.children region = after.children region) →
    Shows cfg later bodyR (body.printed cfg) ∧
      ∀ region, otherR = some region → Shows cfg later region (other.printed cfg)

section Ways

variable {cfg : Cfg} {graph now middle after : Graph} {header join bodyR : RegionId}
  {body other : Code} {others : List RegionId} {otherR : Option RegionId}

theorem Sits.not_mem_exit {code : Code} {pred : Option RegionId}
    (sits : Sits cfg graph now code pred (some join) others) : join ∉ code.regions := by
  have distinct := sits.distinct
  simp only [List.nodup_append, Option.toList_some] at distinct
  rintro inside
  exact distinct.2.2 join inside join (by simp) rfl

theorem Sits.not_mem_pred {code : Code} {exit : Option RegionId}
    (sits : Sits cfg graph now code (some header) exit others) : header ∉ code.regions := by
  have distinct := sits.distinct
  simp only [List.nodup_append, Option.toList_some] at distinct
  rintro inside
  exact distinct.2.2 header inside header (by simp) rfl

theorem Sits.header_ne_join {code : Code}
    (sits : Sits cfg graph now code (some header) (some join) others) : header ≠ join := by
  have distinct := sits.distinct
  simp only [List.nodup_append, Option.toList_some] at distinct
  exact fun same => distinct.2.1.2.2 join (by simp) header (by simp) same.symm

theorem Sits.bound {code : Code} {pred exit : Option RegionId} {region : RegionId}
    (sits : Sits cfg graph now code pred exit others)
    (inside : region ∈ code.regions ++ (exit.toList ++ pred.toList)) : region < now.next :=
  Nat.lt_of_lt_of_le (sits.inUse region inside) sits.grows.next

theorem Ways.headerChildren (ways : Ways cfg graph now header join body other others)
    (merged : Collapsed cfg now middle body (some header) (some join)
      (other.enders header ++ others) (some bodyR)) :
    middle.children header = bodyR :: (other.entry (some join)).toList := by
  have replaced := merged.predChildren header rfl
  obtain ⟨first, starts⟩ := Option.isSome_iff_exists.mp ways.bodyFirst
  rw [starts, ways.children] at replaced
  rw [replaced]
  simp [merge, Code.targets, Code.entry, starts]

/-- The other way still sits in the graph in which the body is merged. -/
theorem Ways.other_sits (ways : Ways cfg graph now header join body other others)
    (merged : Collapsed cfg now middle body (some header) (some join)
      (other.enders header ++ others) (some bodyR)) :
    Sits cfg graph middle other (some header) (some join) (bodyR :: others) := by
  have sits := ways.otherSits
  have apart : ∀ region ∈ other.regions, region < now.next ∧ region ∉ body.regions := by
    rintro region inside
    refine ⟨sits.bound (List.mem_append_left _ inside), ?_⟩
    rintro inBody
    exact (List.nodup_append.mp ways.distinct).2.2 region inBody region inside rfl
  have headerChildren := ways.headerChildren merged
  refine sits.frame merged.grows ?children ?parent ?predChild ?predOld ?exitParent (by simp)
  case children =>
    rintro region inside
    obtain ⟨old, notBody⟩ := apart region inside
    refine merged.children region old notBody ?_
    rintro ⟨⟩
    exact sits.not_mem_pred inside
  case parent =>
    rintro region inside
    obtain ⟨old, notBody⟩ := apart region inside
    refine merged.parent region old notBody ?_
    rintro ⟨⟩
    exact sits.not_mem_exit inside
  case predChild =>
    rintro above first ⟨⟩ starts
    rw [headerChildren]
    simp [Code.entry, starts]
  case predOld =>
    rintro above ⟨⟩ child inside
    rw [headerChildren] at inside
    rcases List.mem_cons.mp inside with rfl | inside
    · exact (merged.inside child rfl).2
    · have listed : child ∈ now.children header := by
        rw [ways.children]
        exact List.mem_append_right _ inside
      exact Nat.lt_of_lt_of_le (sits.predOld header rfl child listed) merged.grows.next
  case exitParent =>
    rintro exit ⟨⟩
    obtain ⟨above, isHeader, parents⟩ := merged.exitParent join rfl
    cases isHeader
    exact ⟨header, rfl, parents.trans List.perm_middle.symm⟩

/-- A region inside some regions is none of the other regions in use. -/
theorem Inside.ne {regions : List RegionId} {region old : RegionId}
    (inside : Inside regions now after region) (absent : old ∉ regions) (inUse : old < now.next) :
    region ≠ old := by
  rintro rfl
  rcases inside.1 with listed | new
  · exact absent listed
  · exact Nat.not_lt_of_le new inUse

/-- What is inside one way is not a region of the other. -/
theorem Ways.inside_not_mem (ways : Ways cfg graph now header join body other others)
    {region : RegionId} (inside : Inside body.regions now middle region) :
    region ∉ other.regions := by
  rintro listed
  refine inside.ne ?_ (ways.otherSits.bound (List.mem_append_left _ listed)) rfl
  rintro inBody
  exact (List.nodup_append.mp ways.distinct).2.2 region inBody region listed rfl

section Merging

variable (ways : Ways cfg graph now header join body other others)
  (first : Collapsed cfg now middle body (some header) (some join)
    (other.enders header ++ others) (some bodyR))
  (second : Collapsed cfg middle after other (some header) (some join) (bodyR :: others) otherR)

include ways first second

theorem Ways.merged_headerChildren : after.children header = [bodyR, otherR.getD join] := by
  have replaced := second.predChildren header rfl
  rw [ways.headerChildren first] at replaced
  rw [replaced]
  cases starts : other.first with
  | none =>
      have noRegion : otherR = none := by simpa [starts] using second.isSome
      simp [merge, noRegion, Code.entry, starts]
  | some region =>
      obtain ⟨merged, isMerged⟩ : ∃ merged, otherR = some merged :=
        Option.isSome_iff_exists.mp (by simp [second.isSome, starts])
      have differs : bodyR ≠ region := by
        rintro rfl
        exact ways.inside_not_mem (first.inside _ rfl) (Code.first_mem starts)
      simp [merge, isMerged, Code.entry, starts, List.replace_cons,
        beq_false_of_ne (Ne.symm differs)]

theorem Ways.merged_distinct : (header :: bodyR :: join :: otherR.toList).Nodup := by
  have headerJoin := ways.bodySits.header_ne_join
  have headerInUse : header < now.next := ways.bodySits.bound (by simp)
  have joinInUse : join < now.next := ways.bodySits.bound (by simp)
  have bodyInside := first.inside bodyR rfl
  have headerBody := bodyInside.ne ways.bodySits.not_mem_pred headerInUse
  have joinBody := bodyInside.ne ways.bodySits.not_mem_exit joinInUse
  cases isMerged : otherR with
  | none => simp [headerJoin, Ne.symm headerBody, joinBody]
  | some region =>
      have inside := second.inside region isMerged
      have larger := first.grows.next
      have otherHeader := inside.ne ways.otherSits.not_mem_pred
        (Nat.lt_of_lt_of_le headerInUse larger)
      have otherJoin := inside.ne ways.otherSits.not_mem_exit (Nat.lt_of_lt_of_le joinInUse larger)
      have otherBody := inside.ne (ways.inside_not_mem bodyInside) bodyInside.2
      simp [headerJoin, Ne.symm headerBody, joinBody, Ne.symm otherHeader, Ne.symm otherJoin,
        Ne.symm otherBody]

omit first in
/-- The regions inside the body are as they were when the body was merged. -/
theorem Ways.body_kept {region : RegionId} (inside : Inside body.regions now middle region) :
    after.children region = middle.children region ∧ after.parent region = middle.parent region := by
  have notOther := ways.inside_not_mem inside
  have headerInUse : header < now.next := ways.bodySits.bound (by simp)
  have joinInUse : join < now.next := ways.bodySits.bound (by simp)
  constructor
  · refine second.children region inside.2 notOther ?_
    rintro ⟨⟩
    exact inside.ne ways.bodySits.not_mem_pred headerInUse rfl
  · refine second.parent region inside.2 notOther ?_
    rintro ⟨⟩
    exact inside.ne ways.bodySits.not_mem_exit joinInUse rfl

theorem Ways.merged :
    Merged cfg now after header join body other others bodyR otherR := by
  have bodyInside := first.inside bodyR rfl
  obtain ⟨bodyChildren, bodyParent⟩ := ways.body_kept second bodyInside
  constructor
  case grows => exact first.grows.trans second.grows
  case isSome => exact second.isSome
  case bodyInside =>
    refine ⟨bodyInside.1.imp (List.mem_append_left _) id, ?_⟩
    exact Nat.lt_of_lt_of_le bodyInside.2 second.grows.next
  case otherInside =>
    rintro region isMerged
    have inside := second.inside region isMerged
    refine ⟨inside.1.imp (List.mem_append_right _) (Nat.le_trans first.grows.next), inside.2⟩
  case distinct => exact ways.merged_distinct first second
  case headerChildren => exact ways.merged_headerChildren first second
  case bodyChildren => rw [bodyChildren, first.ownChildren bodyR rfl]; rfl
  case bodyParent => rw [bodyParent, first.ownParent bodyR rfl]; rfl
  case otherChildren =>
    rintro region isMerged
    rw [second.ownChildren region isMerged]
    rfl
  case joinParent =>
    obtain ⟨above, isHeader, parents⟩ := second.exitParent join rfl
    cases isHeader
    exact parents.trans (.swap ..)
  case children =>
    rintro region old absent notHeader
    have notHeader' : some header ≠ some region := fun same => notHeader (Option.some.inj same).symm
    rw [second.children region (Nat.lt_of_lt_of_le old first.grows.next)
        (fun inside => absent (List.mem_append_right _ inside)) notHeader',
      first.children region old (fun inside => absent (List.mem_append_left _ inside)) notHeader']
  case parent =>
    rintro region old absent notJoin
    have notJoin' : some join ≠ some region := fun same => notJoin (Option.some.inj same).symm
    rw [second.parent region (Nat.lt_of_lt_of_le old first.grows.next)
        (fun inside => absent (List.mem_append_right _ inside)) notJoin',
      first.parent region old (fun inside => absent (List.mem_append_left _ inside)) notJoin']
  case shows =>
    rintro later grows kept
    constructor
    · refine first.shows bodyR rfl later (second.grows.trans grows) ?_
      rintro region inside notBody
      rw [← (ways.body_kept second inside).1]
      refine kept region ⟨inside.1.imp (List.mem_append_left _) id, ?_⟩ notBody ?_
      · exact Nat.lt_of_lt_of_le inside.2 second.grows.next
      · rintro isMerged
        exact (second.inside region isMerged).ne (ways.inside_not_mem inside) inside.2 rfl
    · rintro merged isMerged
      refine second.shows merged isMerged later grows ?_
      rintro region inside notMerged
      refine kept region ⟨inside.1.imp (List.mem_append_right _)
        (Nat.le_trans first.grows.next), inside.2⟩ ?_ ?_
      · exact inside.ne (ways.inside_not_mem bodyInside) bodyInside.2
      · rintro same
        exact notMerged (Option.some.inj (same.symm.trans isMerged))

/-- The walk over a branch: the body with all that is behind the join, and the other way. -/
theorem Ways.walks (bodyWalks : Walks now middle body (some header) (some join) (some bodyR))
    (otherWalks : Walks middle after other (some header) (some join) otherR)
    {before final : Graph} {visited seen : Finset RegionId} {result : RegionId}
    (same : ∀ region ∈ header :: body.regions, before.children region = now.children region)
    (fresh : ∀ region ∈ body.regions ++ other.regions,
      region ∉ insert header visited ∧ region ∉ seen)
    (joinSeen : join ∈ seen)
    (behind : ∀ extra : Finset RegionId, (∀ region ∈ extra, region ∈ body.regions) →
      Enters ⟨before, insert header visited ∪ extra⟩ (some join) ⟨now, seen ∪ extra⟩)
    (process : ∀ visited last, processRegion ⟨after, visited⟩ header last =
      some (⟨final, visited⟩, result)) :
    Searches ⟨before, visited⟩ header
      ⟨final, seen ∪ (body.regions ++ other.regions).toFinset⟩ result := by
  obtain ⟨start, starts⟩ := Option.isSome_iff_exists.mp ways.bodyFirst
  have bodyFresh : ∀ region ∈ body.regions, region ∉ insert header visited ∧ region ∉ seen :=
    fun region inside => fresh region (List.mem_append_left _ inside)
  have walk := bodyWalks before (insert header visited) seen
    (fun region inside => same region (List.mem_cons_of_mem _ inside)) bodyFresh
    (by rintro exit ⟨⟩; exact joinSeen) behind
  rw [starts] at walk
  obtain ⟨inner, -, search⟩ := walk
  have otherFresh : ∀ region ∈ other.regions, region ∉ seen ∪ body.regions.toFinset := by
    rintro region inside
    rw [Finset.mem_union, List.mem_toFinset]
    rintro (isSeen | inBody)
    · exact (fresh region (List.mem_append_right _ inside)).2 isSeen
    · exact (List.nodup_append.mp ways.distinct).2.2 region inBody region inside rfl
  have kept : ∀ region ∈ other.regions, middle.children region = middle.children region :=
    fun _ _ => rfl
  have enters := otherWalks.enters kept
    (fun region inside => ⟨otherFresh region inside, otherFresh region inside⟩)
    (by rintro exit ⟨⟩; exact Finset.mem_union_left _ joinSeen)
    (fun extra _ => .inl ⟨Finset.mem_union_left _ (Finset.mem_union_left _ joinSeen), rfl⟩)
  obtain ⟨next, isNext⟩ : ∃ next, other.entry (some join) = some next := by
    unfold Code.entry
    cases other.first <;> simp
  have children : before.children header = [start, next] := by
    rw [same header List.mem_cons_self, ways.children, Code.targets, isNext]
    simp [Code.entry, starts]
  have merged : middle.children header = [bodyR, next] := by
    rw [ways.headerChildren first, isNext]
    rfl
  have final : (after.children header).length = 2 := by
    rw [ways.merged_headerChildren first second]
    rfl
  rw [isNext, Finset.union_assoc, ← List.toFinset_append] at enters
  exact Searches.branch children (bodyFresh start (Code.first_mem starts)).1 search merged enters
    final (process _)

end Merging

end Ways

end OpenCLDecompiler.Regions
