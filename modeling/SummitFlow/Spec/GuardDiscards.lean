import SummitFlow.Spec.GuardWrappers

/-!
# Discards of the whole tree

`git checkout` and `git restore` discard every uncommitted change when one of their operands
is a pathspec for the whole tree.  Git finds the operands behind any options; the guard looks
at the first argument and behind `--` for a checkout, and at fewer options for a restore, so
where the pathspec stands decides whether it sees it.
-/

namespace SummitFlow.Guard

/-! ## What git reads -/

end SummitFlow.Guard
