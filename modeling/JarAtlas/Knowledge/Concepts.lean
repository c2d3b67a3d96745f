/-!
Short explanations of the game's concepts in the languages that the program brings along.
-/

namespace JarAtlas.Knowledge

def english : List (String × String) := [
  ("ECS",
    "Entity Component System. The base architecture of Hytale. Entities are just IDs, " ++
    "components contain data, and systems process logic by filtering through components."),
  ("Component",
    "Data container attached to an Entity. Examples: TransformComponent, HealthComponent. In " ++
    "Hytale Prism, they can be identified by inheriting from the Component interface."),
  ("System",
    "Pure logic that processes entities with specific components. They run on the server and " ++
    "usually have methods like onEntityAdded or tick."),
  ("Teleport",
    "Component and system responsible for moving entities safely between worlds or " ++
    "coordinates, managing chunk loading."),
  ("World",
    "Abstraction layer representing a universe/dimension. Contains the EntityStore and allows " ++
    "for block and entity management."),
  ("EntityStore",
    "World repository that indexes and manages all active entities. Allows searches by " ++
    "proximity or volume (AABB/Box)."),
  ("Prefab",
    "Data template defining an entity or structure. Includes components, their default values, " ++
    "and asset configurations."),
  ("VFX",
    "Visual effects processed by the rendering engine. In code, they are usually managed " ++
    "through VFXComponent or particle systems."),
  ("Interaction",
    "System managing communication between players and world objects. Based on " ++
    "PickupItemInteraction or UseBlockEvent.")]

def spanish : List (String × String) := [
  ("ECS",
    "Entity Component System. La arquitectura base de Hytale. Las entidades son solo IDs, los " ++
    "componentes contienen datos y los sistemas procesan la lógica filtrando por componentes."),
  ("Component",
    "Contenedor de datos que se añade a una Entity. Ejemplos: TransformComponent, " ++
    "HealthComponent. En Hytale Prism, se pueden identificar por heredar de la interfaz " ++
    "Component."),
  ("System",
    "Lógica pura que procesa entidades con componentes específicos. Corren en el servidor y " ++
    "suelen tener métodos como onEntityAdded o tick."),
  ("Teleport",
    "Componente y sistema encargado de mover entidades de forma segura entre mundos o " ++
    "coordenadas, gestionando el cargado de chunks."),
  ("World",
    "Capa de abstracción que representa un universo/dimensión. Contiene el EntityStore y " ++
    "permite gestionar bloques y entidades."),
  ("EntityStore",
    "Repositorio del World que indexa y gestiona todas las entidades activas. Permite " ++
    "búsquedas por proximidad o volumen (AABB/Box)."),
  ("Prefab",
    "Plantilla de datos que define una entidad o estructura. Incluye componentes, sus valores " ++
    "por defecto y configuraciones de assets."),
  ("VFX",
    "Efectos visuales procesados por el motor de renderizado. En el código, se suelen " ++
    "gestionar a través de VFXComponent o sistemas de partículas."),
  ("Interaction",
    "Sistema que gestiona la comunicación entre el jugador y los objetos del mundo. Basado en " ++
    "PickupItemInteraction o UseBlockEvent.")]

end JarAtlas.Knowledge
