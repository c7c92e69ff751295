import SummitFlow.ForStd.Kahn
import SummitFlow.Python.Error

/-!
# The order of subtasks

Model of `build_graph` and `kahn_sort` of `backend/app/storage/_subtask_dep_helpers.py`.  The
keys of both dicts are the subtasks, so a dict is a function here and `build_graph` checks
the key that it adds to.
-/

namespace SummitFlow.SubtaskOrder

structure Graph where
  inDegree : String → Int
  dependents : String → List String

/-- A dependency `(subtask_id, depends_on)` in `build_graph`. -/
def addEdge (allSubtasks : List String) (graph : Graph) (dependency : String × String) :
    Except PyError Graph :=
  let (subtaskId, dependsOn) := dependency
  if dependsOn ∈ allSubtasks then
    if subtaskId ∈ allSubtasks then
      .ok
        { inDegree := Function.update graph.inDegree subtaskId (graph.inDegree subtaskId + 1)
          dependents := Function.update graph.dependents dependsOn
            (graph.dependents dependsOn ++ [subtaskId]) }
    else .error (.keyError subtaskId)
  else .ok graph

/-- `build_graph`. -/
def buildGraph (allSubtasks : List String) (dependencies : List (String × String)) :
    Except PyError Graph :=
  dependencies.foldlM (addEdge allSubtasks) ⟨fun _ => 0, fun _ => []⟩

structure CycleError where
  message : String
  cyclePath : List String
deriving DecidableEq, Repr

/-- `kahn_sort`: the `while` loop is `Kahn.loop`, in which `release` is the `for` loop over
    the dependents; it takes no more subtasks than there are. -/
def kahnSort (allSubtasks : List String) (graph : Graph) (taskId : String) :
    Option (Except CycleError (List String)) := do
  let queue := allSubtasks.filter fun s => graph.inDegree s = 0
  let (result, inDegree) ←
    Kahn.loop graph.dependents allSubtasks.length queue graph.inDegree []
  if result.length ≠ allSubtasks.length then
    let blockedNodes := allSubtasks.filter fun s => inDegree s > 0
    let counts := toString result.length ++ "/" ++ toString allSubtasks.length
    return .error ⟨"Cycle detected in task " ++ taskId ++ ": processed " ++ counts ++ " subtasks",
      blockedNodes⟩
  else return .ok result

end SummitFlow.SubtaskOrder
