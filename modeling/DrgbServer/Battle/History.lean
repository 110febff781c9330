import DrgbServer.Battle.GameOver

/-! # Achievements follow the history of a game

The history of a player is the list of actions the rounds were executed with. The streak
is its longest constant suffix, the events of a round are settled by the two actions and
the streaks, and the queue hands out the events of the rounds in order. -/
namespace DrgbServer.Battle
open DrgbServer.Utils DrgbServer.Lib.Transition DrgbServer.Lib.History

namespace MyGame

variable {g h : MyGame} {c : Call} {i : Fin 2}

/-! ## The queue -/

theorem Inv.mem_actions (hi : Inv g) (i : Fin 2) : (g.players i).action ∈ actions := by
  obtain ⟨e, he, -⟩ := hi.reserved i
  exact mem_actions_of_requiredEnergy he

end MyGame
end DrgbServer.Battle
