import CppExchange.Adds
import CppExchange.Capacity
import CppExchange.Clock
import CppExchange.Floor
import CppExchange.Labels
import CppExchange.LevelQueue
import CppExchange.Link
import CppExchange.Machine
import CppExchange.PoolCalls
import CppExchange.Registration
import CppExchange.Settlement
import CppExchange.Symmetry
import CppExchange.Waiting
